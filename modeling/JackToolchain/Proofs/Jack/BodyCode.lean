import JackToolchain.Jack.Class.Code
import JackToolchain.Proofs.Jack.Precedence
import JackToolchain.Proofs.Jack.WrittenClass
import JackToolchain.Proofs.Vm.ControlFlow

/-!
# Code of bodies

The code of a subroutine is a header and a body, and no other header stands in the body.

## Main Definitions

* `Headless` — code without headers.
* `bodyCode` — what stands behind the header of a subroutine.

## Main Statements

* `straight_expression` — expressions have no labels, jumps, headers and returns.
* `headless_statementsCode`, `Subroutine.headless_body` — statements and bodies have no headers.
* `Class.bodies_code` — so the code of a class falls into the bodies of its subroutines.
-/

namespace JackToolchain.Jack.Written

open Vm

/-! ## Straight code -/

section Straight

variable (library : Library) (table : Symbol.Table) (className : String)

mutual

/-- The code of an expression does not concern control. -/
theorem Tree.straight_code (tree : Tree) : Straight (tree.codeBy counted library table className) := by
  cases tree with
  | integer | false_ | null | this | «variable» => exact .cons rfl .nil
  | true_ => exact .cons rfl (.cons rfl .nil)
  | string content =>
      exact .cons rfl (.cons rfl (.flatMap fun c _ => .cons rfl (.cons rfl .nil)))
  | element array index =>
      exact .cons rfl (index.straight_code.append (.cons rfl (.cons rfl (.cons rfl .nil))))
  | call callee arguments =>
      have passed : Straight ((callee.receiver table).toList.map Place.push) := by
        cases callee.receiver table with
        | none => exact .nil
        | some place => exact .cons rfl .nil
      exact (passed.append (straight_codes arguments)).append (.cons rfl .nil)
  | unary operator operand =>
      refine operand.straight_code.append ?_
      cases operator <;> exact .cons rfl .nil
  | binary operator left right =>
      refine (left.straight_code.append right.straight_code).append ?_
      cases operator <;> exact .cons rfl .nil

theorem straight_codes (trees : List Tree) : Straight (codesBy counted library table className trees) := by
  cases trees with
  | nil => exact .nil
  | cons tree rest => exact tree.straight_code.append (straight_codes rest)

end

theorem straight_expression (expression : Expression) :
    Straight ((expression.resolved table className).code library) := by
  rw [code_resolved]
  exact expression.tree.straight_code library table className

/-- The code of a call statement is that of the call as an operand. -/
theorem code_resolvedCall (callee : Callee) (arguments : List Expression) :
    (resolvedCall table className callee arguments).code library =
      (Tree.call callee (argumentTrees arguments)).codeBy counted library table className := by
  rw [Call.code, Call.passage, resolvedCall, Tree.codeBy, Passage.code_append, Passage.code_append,
    code_arguments, Passage.code_block, Passage.code_block, callInstruction,
    resolvedArguments_eq_map, argumentTrees_eq_map, List.length_map, List.length_map]
  cases callee.receiver table <;> rfl

theorem straight_assign (target : Place) (value : Expression) :
    Straight ((Jack.Statement.assign target (value.resolved table className)).code library) := by
  rw [Jack.Statement.code_assign]
  exact (straight_expression library table className value).append (.cons rfl .nil)

theorem straight_assignElement (array : Place) (index value : Expression) :
    Straight ((Jack.Statement.assignElement array (index.resolved table className)
      (value.resolved table className)).code library) := by
  have added : Straight [.operate .add] := .cons rfl .nil
  have address := (straight_expression library table className index).append added
  have stored : Straight storeElement := .cons rfl (.cons rfl (.cons rfl (.cons rfl .nil)))
  rw [Jack.Statement.code_assignElement]
  exact (Straight.cons rfl address |>.append
    (straight_expression library table className value)).append stored

theorem straight_run (callee : Callee) (arguments : List Expression) :
    Straight ((Jack.Statement.run (resolvedCall table className callee arguments)).code library) := by
  rw [Jack.Statement.code_run, code_resolvedCall]
  exact (Tree.straight_code library table className _).append (.cons rfl .nil)

end Straight

/-! ## Code without headers -/

/-- Code in which no function begins. -/
def Headless (code : List Instruction) : Prop := ∀ i ∈ code, i.isFunction = false

namespace Headless

variable {instruction : Instruction} {front behind : List Instruction}

theorem nil : Headless [] := List.forall_mem_nil _

theorem cons (first : instruction.isFunction = false) (rest : Headless behind) :
    Headless (instruction :: behind) :=
  List.forall_mem_cons.mpr ⟨first, rest⟩

theorem append (first : Headless front) (second : Headless behind) : Headless (front ++ behind) :=
  List.forall_mem_append.mpr ⟨first, second⟩

theorem of_straight (straight : Straight front) : Headless front := by
  intro i member
  cases i with
  | function => exact Bool.noConfusion (straight _ member)
  | push | pop | operate | label | goto | ifGoto | call | return_ => rfl

end Headless

section Statements

variable (library : Library) (table : Symbol.Table) (className : String)

theorem headless_expression (expression : Expression) :
    Headless ((expression.resolved table className).code library) :=
  .of_straight (straight_expression library table className expression)

theorem headless_condition (condition : Expression) (name : String) :
    Headless ((condition.resolved table className).code library ++ [Instruction.operate .not, .ifGoto name]) :=
  (headless_expression library table className condition).append (.cons rfl (.cons rfl .nil))

mutual

/-- No function begins in a statement… -/
theorem Statement.headless_code (statement : Statement) (first : Nat) :
    Headless ((statement.resolved table className first).code library) := by
  cases statement with
  | assign target value => exact .of_straight (straight_assign library table className _ value)
  | assignElement array index value =>
      exact .of_straight (straight_assignElement library table className _ index value)
  | branch condition body =>
      rw [Statement.resolved, Jack.Statement.code_branch]
      have test := headless_condition library table className condition (trueLabel first)
      exact (((test.append (headless_statementsCode body (first + 1))).append
        (.cons rfl (.cons rfl .nil))).append .nil).append (.cons rfl .nil)
  | choice condition whenTrue whenFalse =>
      rw [Statement.resolved, Jack.Statement.code_branch]
      have test := headless_condition library table className condition (trueLabel first)
      exact (((test.append (headless_statementsCode whenTrue _)).append
        (.cons rfl (.cons rfl .nil))).append (headless_statementsCode whenFalse _)).append
        (.cons rfl .nil)
  | loop condition body =>
      rw [Statement.resolved, Jack.Statement.code_loop]
      have top : Headless [.label (topLabel first)] := .cons rfl .nil
      have test := top.append (headless_condition library table className condition (exitLabel first))
      have looped := (test.append (headless_statementsCode body (first + 1))).append
        (.cons rfl (.cons rfl .nil) : Headless [.goto (topLabel first), .label (exitLabel first)])
      simpa using looped
  | run callee arguments =>
      exact .of_straight (straight_run library table className callee arguments)
  | leave value =>
      cases value with
      | none => exact .cons rfl (.cons rfl .nil)
      | some value =>
          rw [Statement.resolved, Option.map_some, Jack.Statement.code_leave_some]
          exact (headless_expression library table className value).append (.cons rfl .nil)

/-- …and none in statements. -/
theorem headless_statementsCode (statements : List Statement) (first : Nat) :
    Headless (statementsCode library (resolvedStatements table className first statements)) := by
  cases statements with
  | nil => exact .nil
  | cons statement rest =>
      rw [resolvedStatements, statementsCode_eq_flatMap, List.flatMap_cons,
        ← statementsCode_eq_flatMap]
      exact (statement.headless_code first).append
        (headless_statementsCode rest (first + statement.branchings))

end

end Statements

/-! ## Bodies -/

/-- What stands behind the header of a subroutine. -/
def bodyCode (library : Library) (fields : Nat) (subroutine : Jack.Subroutine) : List Instruction :=
  subroutine.prologue library fields ++ statementsCode library subroutine.body ++ subroutine.epilogue

theorem code_eq_bodyCode (library : Library) (className : String) (fields : Nat)
    (subroutine : Jack.Subroutine) :
    subroutine.code library className fields =
      .function (qualifiedName className subroutine.name) subroutine.locals ::
        bodyCode library fields subroutine := rfl

/-- **No function begins in the body of a subroutine.** -/
theorem Subroutine.headless_body (library : Library) (className : String) (ofClass : Symbol.Table)
    (first fields : Nat) (subroutine : Subroutine) :
    Headless (bodyCode library fields (subroutine.resolved className ofClass first)) := by
  have prologue (s : Jack.Subroutine) : Headless (s.prologue library fields) := by
    unfold Jack.Subroutine.prologue
    cases s.kind with
    | constructor_ => exact .cons rfl (.cons rfl (.cons rfl .nil))
    | function => exact .nil
    | method => exact .cons rfl (.cons rfl .nil)
  have epilogue (s : Jack.Subroutine) : Headless s.epilogue := by
    unfold Jack.Subroutine.epilogue
    cases s.kind with
    | constructor_ => exact .cons rfl (.cons rfl .nil)
    | function | method =>
        dsimp only
        split
        · exact .cons rfl (.cons rfl .nil)
        · exact .nil
  exact ((prologue _).append (headless_statementsCode library _ className subroutine.body first)).append
    (epilogue _)

/-- Subroutines that are resolved one after the other are resolved one by one. -/
theorem mem_resolvedSubroutines {className : String} {ofClass : Symbol.Table} {first : Nat}
    {written : List Subroutine} {resolved : Jack.Subroutine}
    (member : resolved ∈ resolvedSubroutines className ofClass first written) :
    ∃ subroutine ∈ written, ∃ number, resolved = subroutine.resolved className ofClass number := by
  induction written generalizing first with
  | nil => exact absurd member List.not_mem_nil
  | cons subroutine rest ih =>
      rcases List.mem_cons.mp member with rfl | behind
      · exact ⟨subroutine, List.mem_cons_self, first, rfl⟩
      · obtain ⟨other, inRest, number, rfl⟩ := ih behind
        exact ⟨other, List.mem_cons_of_mem _ inRest, number, rfl⟩

/-- The bodies of a resolved class have no headers. -/
theorem Class.headless_bodies (library : Library) (fields first : Nat) (cls : Class) :
    ∀ s ∈ (cls.resolved first).subroutines, Headless (bodyCode library fields s) := by
  intro s member
  obtain ⟨subroutine, -, number, rfl⟩ := mem_resolvedSubroutines member
  exact subroutine.headless_body library cls.name cls.table number fields

/-- Subroutines without headers in their bodies have these as the bodies of their code. -/
theorem bodies_subroutines (library : Library) (className : String) (fields : Nat)
    {subroutines : List Jack.Subroutine}
    (headless : ∀ s ∈ subroutines, Headless (bodyCode library fields s)) :
    bodies (subroutines.flatMap (·.code library className fields)) =
      subroutines.map (bodyCode library fields) := by
  induction subroutines with
  | nil => rfl
  | cons subroutine rest ih =>
      obtain ⟨here, others⟩ := List.forall_mem_cons.mp headless
      rw [List.flatMap_cons, code_eq_bodyCode, List.cons_append,
        bodies_function _ _ here, ih others, List.map_cons]
      cases rest with
      | nil => exact fun _ member => absurd member (by simp)
      | cons next behind =>
          rintro instruction ⟨⟩
          rfl

/-- **The bodies of a class** are those of its subroutines. -/
theorem Class.bodies_code (library : Library) (first : Nat) (cls : Class) :
    bodies ((cls.resolved first).code library) =
      (cls.resolved first).subroutines.map (bodyCode library (cls.resolved first).fields) :=
  bodies_subroutines library cls.name _ (cls.headless_bodies library _ first)

end JackToolchain.Jack.Written
