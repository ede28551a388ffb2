import JackToolchain.Jack.Expression.Barrier
import JackToolchain.Proofs.Jack.OperatorRuns

/-!
# Drafts

What is written of an expression while it is read, told by its tree.

## Main Definitions

* `KeepsFloors` — emission that does not depend on what stands below the nearest barrier.
* `OperatorStack.StandsOn` — a stack that consists of operators on a given floor.
* `Draft.after`, `Draft.afterExpression` — a draft in which a term or an expression is written.

## Main Statements

* `Expression.keepsFloors` — an expression neither moves nor uses what stands below the nearest barrier.
* `Draft.after_group`, `Draft.after_element`, `Draft.afterSteps_cons`, … — how the draft of a term is put together.
* `code_closed` — an expression is written alike on an empty stack and in brackets.
-/

namespace JackToolchain.Jack

open Vm

/-! ## Emission above a floor -/

/-- **Emission above a floor.**  What is emitted, and what is left waiting above the floor, does not depend on it. -/
def KeepsFloors (emit : OperatorStack → Emission) : Prop :=
  ∀ above : List Operator, ∃ (passage : Passage) (left : List Operator), ∀ floor, IsFloor floor →
    emit ⟨above.map .operator ++ floor⟩ = ⟨passage, ⟨left.map .operator ++ floor⟩⟩

namespace KeepsFloors

variable {emit : OperatorStack → Emission}

/-- What is emitted in brackets leaves nothing once they are closed. -/
theorem enclosed (keeps : KeepsFloors emit) :
    ∃ (passage : Passage) (left : List Operator), ∀ pending bracket,
      emit (pending.enclose bracket) = ⟨passage, ⟨left.map .operator ++ (pending.enclose bracket).entries⟩⟩ ∧
        ((emit (pending.enclose bracket)).pending.close bracket).1 = ⟨left, pending⟩ := by
  obtain ⟨passage, left, emitted⟩ := keeps []
  refine ⟨passage, left, fun pending bracket => ?_⟩
  have inside : emit (pending.enclose bracket) =
      ⟨passage, ⟨left.map .operator ++ (pending.enclose bracket).entries⟩⟩ :=
    emitted _ (isFloor_enclose pending bracket)
  refine ⟨inside, ?_⟩
  rw [inside]
  exact congrArg Prod.fst (close_above_enclose left pending bracket)

end KeepsFloors

section Emission

variable (library : Library)

/-- What is computed where it stands leaves the stack as it is. -/
theorem keepsFloors_of_stack {emit : OperatorStack → Emission} (passage : Passage)
    (same : ∀ pending, emit pending = ⟨passage, pending⟩) : KeepsFloors emit :=
  fun above => ⟨passage, above, fun _ _ => same _⟩

mutual

theorem Term.keepsFloors (term : Term) : KeepsFloors (term.emit library) := by
  cases term with
  | integer value => exact keepsFloors_of_stack _ fun _ => rfl
  | string content => exact keepsFloors_of_stack _ fun _ => rfl
  | true_ => exact keepsFloors_of_stack _ fun _ => rfl
  | false_ => exact keepsFloors_of_stack _ fun _ => rfl
  | null => exact keepsFloors_of_stack _ fun _ => rfl
  | this => exact keepsFloors_of_stack _ fun _ => rfl
  | «variable» place => exact keepsFloors_of_stack _ fun _ => rfl
  | call callee receiver arguments => exact keepsFloors_of_stack _ fun _ => rfl
  | element array index =>
      obtain ⟨passage, left, enclosed⟩ := index.keepsFloors.enclosed
      refine keepsFloors_of_stack (Passage.block [array.push] ++ passage ++
        (⟨left, {}⟩ : Release).passage library ++ .block loadElement) fun pending => ?_
      obtain ⟨emitted, closed⟩ := enclosed pending .square
      rw [Term.emit, closed, emitted]
      rfl
  | group inner =>
      obtain ⟨passage, left, enclosed⟩ := inner.keepsFloors.enclosed
      refine keepsFloors_of_stack (passage ++ (⟨left, {}⟩ : Release).passage library) fun pending => ?_
      obtain ⟨emitted, closed⟩ := enclosed pending .round
      rw [Term.emit, closed, emitted]
      rfl
  | unary operator operand =>
      intro above
      obtain ⟨passage, left, emitted⟩ := operand.keepsFloors (.unary operator :: above)
      refine ⟨.block [] ++ passage, left, fun floor isFloor => ?_⟩
      dsimp only
      rw [Term.emit, push_unary]
      exact congrArg (fun behind : Emission => (⟨.block [] ++ behind.passage, behind.pending⟩ : Emission))
        (emitted floor isFloor)
termination_by structural term

theorem Expression.keepsFloors (expression : Expression) : KeepsFloors (expression.emit library) := by
  cases expression with
  | chain first steps =>
      intro above
      obtain ⟨front, between, emittedFirst⟩ := first.keepsFloors above
      obtain ⟨back, left, emittedSteps⟩ := keepsFloors_emitRest steps between
      refine ⟨front ++ back, left, fun floor isFloor => ?_⟩
      have inFront : first.emit library ⟨above.map .operator ++ floor⟩ = _ := emittedFirst floor isFloor
      have atBack : emitRest library ⟨between.map .operator ++ floor⟩ steps = _ := emittedSteps floor isFloor
      dsimp only
      rw [Expression.emit, inFront, atBack]
termination_by structural expression

theorem keepsFloors_emitRest (steps : List (BinaryOperator × Term)) :
    KeepsFloors fun pending => emitRest library pending steps := by
  cases steps with
  | nil => exact keepsFloors_of_stack _ fun _ => rfl
  | cons step steps =>
      obtain ⟨operator, operand⟩ := step
      intro above
      let released := above.takeWhile ((Operator.binary operator).precedence < ·.precedence)
      let waiting := above.dropWhile ((Operator.binary operator).precedence < ·.precedence)
      obtain ⟨front, between, emittedOperand⟩ := operand.keepsFloors (.binary operator :: waiting)
      obtain ⟨back, left, emittedSteps⟩ := keepsFloors_emitRest steps between
      refine ⟨(⟨released, {}⟩ : Release).passage library ++ front ++ back, left, fun floor isFloor => ?_⟩
      have inFront : operand.emit library
          ⟨.operator (.binary operator) :: (waiting.map .operator ++ floor)⟩ = _ := emittedOperand floor isFloor
      have atBack : emitRest library ⟨between.map .operator ++ floor⟩ steps = _ := emittedSteps floor isFloor
      dsimp only
      rw [emitRest, push_above_floor _ _ isFloor]
      dsimp only
      rw [inFront, atBack]
      rfl
termination_by structural steps

end

end Emission

/-! ## Stacks on a floor -/

/-- A stack consists of operators on a floor. -/
def OperatorStack.StandsOn (stack : OperatorStack) (floor : List Pending) : Prop :=
  ∃ above : List Operator, stack = ⟨above.map .operator ++ floor⟩

namespace OperatorStack.StandsOn

variable {stack pending : OperatorStack} {floor : List Pending} {bracket : Bracket}

theorem push (stands : stack.StandsOn floor) (isFloor : IsFloor floor) (operator : Operator) :
    (stack.push operator).stack.StandsOn floor := by
  obtain ⟨above, rfl⟩ := stands
  rw [push_above_floor operator above isFloor]
  exact ⟨operator :: _, rfl⟩

theorem emit {emit : OperatorStack → Emission} (stands : stack.StandsOn floor) (isFloor : IsFloor floor)
    (keeps : KeepsFloors emit) : (emit stack).pending.StandsOn floor := by
  obtain ⟨above, rfl⟩ := stands
  obtain ⟨passage, left, emitted⟩ := keeps above
  rw [emitted floor isFloor]
  exact ⟨left, rfl⟩

/-- The nearest barrier is on top of the floor. -/
theorem nearestBarrier? (stands : stack.StandsOn floor) (isFloor : IsFloor floor) :
    stack.nearestBarrier? = floor.head?.bind Pending.barrier? := by
  obtain ⟨above, rfl⟩ := stands
  exact nearestBarrier?_above_floor above isFloor

theorem flush (stands : stack.StandsOn floor) (isFloor : IsFloor floor) : stack.flush.stack = ⟨floor⟩ := by
  obtain ⟨above, rfl⟩ := stands
  rw [flush_above_floor above isFloor]

theorem close (stands : stack.StandsOn (pending.enclose bracket).entries) :
    (stack.close bracket).1.stack = pending := by
  obtain ⟨above, rfl⟩ := stands
  rw [close_above_enclose]

end OperatorStack.StandsOn

/-! ## Drafts -/

namespace Draft

variable (library : Library) (draft : Draft)

/-- A draft in which a term is written,… -/
def after (term : Term) : Draft where
  code := draft.code ++ (term.emit library draft.stack).passage.code
  stack := (term.emit library draft.stack).pending

/-- …operators and the terms behind them,… -/
def afterSteps (steps : List (BinaryOperator × Term)) : Draft where
  code := draft.code ++ (emitRest library draft.stack steps).passage.code
  stack := (emitRest library draft.stack steps).pending

/-- …or an expression. -/
def afterExpression (expression : Expression) : Draft where
  code := draft.code ++ (expression.emit library draft.stack).passage.code
  stack := (expression.emit library draft.stack).pending

theorem after_unary (operator : UnaryOperator) (operand : Term) :
    draft.after library (.unary operator operand) = (draft.push library (.unary operator)).after library operand := by
  simp [after, push, release, Term.emit]

theorem after_group (inner : Expression) : draft.after library (.group inner) =
    ((draft.enclose .round).afterExpression library inner).close library .round := by
  simp [after, afterExpression, close, release, enclose, Term.emit]

theorem after_element (array : Place) (index : Expression) : draft.after library (.element array index) =
    ((((draft.enclose .square).write [array.push]).afterExpression library index).close library .square).write
      loadElement := by
  simp [after, afterExpression, close, release, enclose, write, Term.emit]

theorem after_call (call : Call) : draft.after library call.term = draft.write (call.code library) := by
  rw [after, Call.emit_term]
  rfl

@[simp] theorem afterSteps_nil : draft.afterSteps library [] = draft := by
  simp [afterSteps, emitRest]

theorem afterSteps_cons (operator : BinaryOperator) (operand : Term) (steps : List (BinaryOperator × Term)) :
    draft.afterSteps library ((operator, operand) :: steps) =
      ((draft.push library (.binary operator)).after library operand).afterSteps library steps := by
  simp [afterSteps, after, push, release, emitRest]

theorem afterExpression_chain (first : Term) (steps : List (BinaryOperator × Term)) :
    draft.afterExpression library (.chain first steps) = (draft.after library first).afterSteps library steps := by
  simp [afterExpression, afterSteps, after, Expression.emit]

end Draft

/-- An expression is written alike on an empty stack and in brackets. -/
theorem code_closed (library : Library) (expression : Expression) (bracket : Bracket) :
    ((({ stack := ({} : OperatorStack).enclose bracket } : Draft).afterExpression library expression).close library
      bracket).code = expression.code library := by
  obtain ⟨passage, left, emitted⟩ := expression.keepsFloors library []
  have bare : expression.emit library {} = ⟨passage, ⟨left.map .operator ++ []⟩⟩ := emitted [] isFloor_nil
  have enclosed : expression.emit library (({} : OperatorStack).enclose bracket) =
      ⟨passage, ⟨left.map .operator ++ (({} : OperatorStack).enclose bracket).entries⟩⟩ :=
    emitted _ (isFloor_enclose {} bracket)
  rw [Draft.afterExpression, enclosed, Draft.close, close_above_enclose, Expression.code, Expression.passage, bare,
    Emission.finish, flush_above_floor left isFloor_nil]
  simp [Draft.release]

end JackToolchain.Jack
