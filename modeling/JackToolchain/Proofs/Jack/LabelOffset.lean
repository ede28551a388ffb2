import JackToolchain.Proofs.Jack.Labels

/-!
# Label offsets

The code of a class, numbered from elsewhere on, is the same code with other numbers in its labels.

## Main Definitions

* `raisedLabel` — the label of a branching statement with its number raised.
* `Instruction.raised` — an instruction with the number in its label raised.

## Main Statements

* `raised_statementsCode` — statements that are numbered from `first + offset` on have the code of the same
  statements, numbered from `first` on, with all numbers raised by `offset`.
* `raised_subroutineCode`, `raised_subroutines` — so do subroutines.
* `code_resolvedSubroutines` — the code of subroutines is put together from that of each of them,
  numbered from zero on.

## Design Notes

A label is read as a word without digits and a numeral behind it.  What is not the label of a branching
statement is left as it is, so raising makes sense for every code; the names of functions are not labels.
-/

namespace JackToolchain

namespace Jack

/-- The words that begin the labels of branching statements. -/
def branchingWords : List String := ["IF_TRUE", "IF_FALSE", "WHILE_EXP", "WHILE_END"]

/-- **A raised label.**  The number of a label of a branching statement is raised by an offset; other names
are left as they are. -/
def raisedLabel (offset : Nat) (name : String) : String :=
  let word := String.ofList (name.toList.takeWhile (!·.isDigit))
  let digits := name.toList.dropWhile (!·.isDigit)
  if word ∈ branchingWords ∧ digits ≠ [] ∧ digits.all (·.isDigit) then
    word ++ toString (Text.decimalValue digits + offset)
  else name

/-- The number behind a word is raised. -/
theorem raisedLabel_numbered {word : String} (known : word ∈ branchingWords) (offset number : Nat) :
    raisedLabel offset (word ++ toString number) = word ++ toString (number + offset) := by
  have noDigit : word.toList.filter (·.isDigit) = [] := by
    unfold branchingWords at known
    simp only [List.mem_cons, List.not_mem_nil, or_false] at known
    rcases known with rfl | rfl | rfl | rfl <;> decide
  have letters : ∀ c ∈ word.toList, (!c.isDigit) = true := by
    simpa only [Bool.not_eq_true', Bool.not_eq_true] using List.filter_eq_nil_iff.mp noDigit
  have numeral : ∀ c ∈ Nat.toDigits 10 number, c.isDigit = true :=
    fun c member => Nat.isDigit_of_mem_toDigits (by decide) (by decide) member
  have stops : (Nat.toDigits 10 number).takeWhile (!·.isDigit) = [] ∧
      (Nat.toDigits 10 number).dropWhile (!·.isDigit) = Nat.toDigits 10 number := by
    cases spelled : Nat.toDigits 10 number with
    | nil => exact absurd spelled Nat.toDigits_ne_nil
    | cons digit rest =>
        have isDigit := numeral digit (spelled ▸ List.mem_cons_self)
        simp [isDigit]
  have front : (word ++ toString number).toList.takeWhile (!·.isDigit) = word.toList := by
    rw [Text.toList_numbered, List.takeWhile_append_of_pos letters, stops.1, List.append_nil]
  have behind : (word ++ toString number).toList.dropWhile (!·.isDigit) = Nat.toDigits 10 number := by
    rw [Text.toList_numbered, List.dropWhile_append_of_pos letters, stops.2]
  unfold raisedLabel
  rw [front, behind, String.ofList_toList]
  dsimp only
  rw [Text.decimalValue_toDigits, if_pos]
  exact ⟨known, Nat.toDigits_ne_nil, List.all_eq_true.mpr numeral⟩

@[simp] theorem raisedLabel_trueLabel (offset number : Nat) :
    raisedLabel offset (trueLabel number) = trueLabel (number + offset) :=
  raisedLabel_numbered (by decide) offset number

@[simp] theorem raisedLabel_falseLabel (offset number : Nat) :
    raisedLabel offset (falseLabel number) = falseLabel (number + offset) :=
  raisedLabel_numbered (by decide) offset number

@[simp] theorem raisedLabel_topLabel (offset number : Nat) :
    raisedLabel offset (topLabel number) = topLabel (number + offset) :=
  raisedLabel_numbered (by decide) offset number

@[simp] theorem raisedLabel_exitLabel (offset number : Nat) :
    raisedLabel offset (exitLabel number) = exitLabel (number + offset) :=
  raisedLabel_numbered (by decide) offset number

end Jack

/-! ## Instructions -/

namespace Vm

/-- The instruction with the number in its label raised by an offset. -/
def Instruction.raised (offset : Nat) : Instruction → Instruction
  | label name => label (Jack.raisedLabel offset name)
  | goto name => goto (Jack.raisedLabel offset name)
  | ifGoto name => ifGoto (Jack.raisedLabel offset name)
  | instruction => instruction

@[simp] theorem Instruction.raised_label (offset : Nat) (name : String) :
    (label name).raised offset = label (Jack.raisedLabel offset name) := rfl

@[simp] theorem Instruction.raised_goto (offset : Nat) (name : String) :
    (goto name).raised offset = goto (Jack.raisedLabel offset name) := rfl

@[simp] theorem Instruction.raised_ifGoto (offset : Nat) (name : String) :
    (ifGoto name).raised offset = ifGoto (Jack.raisedLabel offset name) := rfl

@[simp] theorem Instruction.raised_operate (offset : Nat) (operation : Operation) :
    (operate operation).raised offset = operate operation := rfl

/-- An instruction without a label is left as it is. -/
theorem Instruction.raised_of_isStraight {instruction : Instruction} (offset : Nat)
    (straight : instruction.isStraight = true) : instruction.raised offset = instruction := by
  cases instruction with
  | push | pop | operate | call => rfl
  | label | goto | ifGoto | function | return_ => exact Bool.noConfusion straight

/-- Straight code has no labels to raise. -/
theorem Straight.raised {code : List Instruction} (straight : Straight code) (offset : Nat) :
    code.map (·.raised offset) = code := by
  rw [List.map_congr_left fun instruction member =>
    Instruction.raised_of_isStraight offset (straight instruction member)]
  exact List.map_id code

end Vm

namespace Jack.Written

open Vm

section Statements

variable (library : Library) (table : Symbol.Table) (className : String) (offset : Nat)

/-- Expressions have no labels to raise. -/
theorem raised_expression (expression : Expression) :
    ((expression.resolved table className).code library).map (·.raised offset) =
      (expression.resolved table className).code library :=
  (straight_expression library table className expression).raised offset

theorem raised_branch (number : Nat) (condition : Expression)
    (whenTrue whenFalse : List Jack.Statement) :
    ((Jack.Statement.branch number (condition.resolved table className) whenTrue
        whenFalse).code library).map (·.raised offset) =
      (condition.resolved table className).code library ++
        [Instruction.operate .not, .ifGoto (trueLabel (number + offset))] ++
        (statementsCode library whenTrue).map (·.raised offset) ++
        [Instruction.goto (falseLabel (number + offset)), .label (trueLabel (number + offset))] ++
        (statementsCode library whenFalse).map (·.raised offset) ++
        [Instruction.label (falseLabel (number + offset))] := by
  simp [Jack.Statement.code_branch, raised_expression]

theorem raised_loop (number : Nat) (condition : Expression) (body : List Jack.Statement) :
    ((Jack.Statement.loop number (condition.resolved table className) body).code library).map
        (·.raised offset) =
      Instruction.label (topLabel (number + offset)) :: (condition.resolved table className).code library ++
        [Instruction.operate .not, .ifGoto (exitLabel (number + offset))] ++
        (statementsCode library body).map (·.raised offset) ++
        [Instruction.goto (topLabel (number + offset)), .label (exitLabel (number + offset))] := by
  simp [Jack.Statement.code_loop, raised_expression]

mutual

/-- A statement that is numbered from elsewhere on has the same code with other numbers. -/
theorem Statement.raised_code (statement : Statement) (first : Nat) :
    ((statement.resolved table className first).code library).map (·.raised offset) =
      (statement.resolved table className (first + offset)).code library := by
  cases statement with
  | assign target value => exact (straight_assign library table className _ value).raised offset
  | assignElement array index value =>
      exact (straight_assignElement library table className _ index value).raised offset
  | branch condition body =>
      rw [Statement.resolved, raised_branch, raised_statementsCode body, Statement.resolved,
        Jack.Statement.code_branch, Nat.add_right_comm]
      rfl
  | choice condition whenTrue whenFalse =>
      -- The second branch is numbered behind the first one; in all three numbers the offset moves to the end.
      rw [Statement.resolved, raised_branch, raised_statementsCode whenTrue,
        raised_statementsCode whenFalse, Statement.resolved, Jack.Statement.code_branch,
        Nat.add_right_comm first 1 offset, Nat.add_right_comm (first + 1) _ offset,
        Nat.add_right_comm first 1 offset]
  | loop condition body =>
      rw [Statement.resolved, raised_loop, raised_statementsCode body, Statement.resolved,
        Jack.Statement.code_loop, Nat.add_right_comm]
  | run callee arguments =>
      exact (straight_run library table className callee arguments).raised offset
  | leave value =>
      cases value with
      | none => rfl
      | some value =>
          rw [Statement.resolved, Option.map_some, Jack.Statement.code_leave_some, List.map_append,
            raised_expression, Statement.resolved, Option.map_some, Jack.Statement.code_leave_some]
          rfl

/-- **Statements** that are numbered from elsewhere on have the same code with other numbers. -/
theorem raised_statementsCode (statements : List Statement) (first : Nat) :
    (statementsCode library (resolvedStatements table className first statements)).map
        (·.raised offset) =
      statementsCode library (resolvedStatements table className (first + offset) statements) := by
  cases statements with
  | nil => rfl
  | cons statement rest =>
      rw [resolvedStatements, statementsCode_cons, List.map_append, statement.raised_code first,
        raised_statementsCode rest, Nat.add_right_comm, resolvedStatements, statementsCode_cons]

end

end Statements

/-! ## Subroutines -/

section Subroutines

variable (library : Library) (className : String) (ofClass : Symbol.Table) (fields : Nat)

/-- The code in front of the statements of a subroutine has no labels… -/
theorem raised_prologue (offset : Nat) (subroutine : Jack.Subroutine) :
    (subroutine.prologue library fields).map (·.raised offset) =
      subroutine.prologue library fields := by
  unfold Jack.Subroutine.prologue
  cases subroutine.kind <;> rfl

/-- …and neither has that behind them. -/
theorem raised_epilogue (offset : Nat) (subroutine : Jack.Subroutine) :
    subroutine.epilogue.map (·.raised offset) = subroutine.epilogue := by
  unfold Jack.Subroutine.epilogue
  cases subroutine.kind with
  | constructor_ => rfl
  | function | method =>
      dsimp only
      split <;> rfl

/-- **A subroutine** that is numbered from elsewhere on has the same code with other numbers. -/
theorem raised_subroutineCode (subroutine : Subroutine) (first offset : Nat) :
    ((subroutine.resolved className ofClass first).code library className fields).map
        (·.raised offset) =
      (subroutine.resolved className ofClass (first + offset)).code library className fields := by
  rw [code_eq_bodyCode, bodyCode, List.map_cons, List.map_append, List.map_append, raised_prologue,
    raised_epilogue, Subroutine.resolved, raised_statementsCode]
  rfl

/-- Subroutines that are numbered from elsewhere on have the same code with other numbers. -/
theorem raised_subroutines (offset : Nat) (subroutines : List Subroutine) (first : Nat) :
    ((resolvedSubroutines className ofClass first subroutines).flatMap
        (·.code library className fields)).map (·.raised offset) =
      (resolvedSubroutines className ofClass (first + offset) subroutines).flatMap
        (·.code library className fields) := by
  induction subroutines generalizing first with
  | nil => rfl
  | cons subroutine rest ih =>
      rw [resolvedSubroutines, List.flatMap_cons, List.map_append, ih, raised_subroutineCode,
        Nat.add_right_comm]
      rfl

/-- **The code of subroutines** is that of each of them, numbered from zero on, with its numbers raised by
how many there are in front. -/
theorem code_resolvedSubroutines (subroutines : List Subroutine) (first : Nat) :
    (resolvedSubroutines className ofClass first subroutines).flatMap
        (·.code library className fields) =
      subroutines.zipIdx.flatMap fun (subroutine, position) =>
        ((subroutine.resolved className ofClass 0).code library className fields).map
          (·.raised (first + branchingsWithin (subroutines.take position))) := by
  induction subroutines generalizing first with
  | nil => rfl
  | cons subroutine rest ih =>
      rw [resolvedSubroutines, List.flatMap_cons, ih, List.zipIdx_cons', List.flatMap_cons,
        List.flatMap_map]
      refine congrArg₂ (· ++ ·) ?_ ?_
      · have here := raised_subroutineCode library className ofClass fields subroutine 0 first
        rw [Nat.zero_add] at here
        exact here.symm
      · refine List.flatMap_congr fun item _ => ?_
        obtain ⟨other, position⟩ := item
        dsimp only [Prod.map_apply, id_eq]
        rw [List.take_succ_cons, branchingsWithin, ← Nat.add_assoc]

end Subroutines

end Jack.Written

end JackToolchain
