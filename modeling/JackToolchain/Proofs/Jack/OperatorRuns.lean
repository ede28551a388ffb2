import JackToolchain.Proofs.Jack.Precedence
import Mathlib.Data.List.Chain

/-!
# Runs of the operator stack

What becomes of operators on the stack, whatever is done with it: whether they come from an expression or not.

## Main Definitions

* `OperatorStack.Step`, `OperatorStack.step`, `OperatorStack.run` — what can be done with a stack, and everything that
  is released on the way.
* `OperatorStack.Ascends` — operators without a barrier between them bind the more tightly the higher they stand.
* `OperatorStack.Guards` — as long as a barrier stands, everything is released as if nothing stood below it.
* `OperatorStack.Drains` — what closing a bracket does.

## Main Statements

* `OperatorStack.run_inOrder` — runs keep stacks in order.
* `OperatorStack.run_conserves` — what was there and what is pushed is released or still there, each as often.
* `OperatorStack.mem_pushed_iff` — what was pushed was released, or the stack contains it.
* `OperatorStack.run_atop` — the part of a stack below a barrier does not matter until the barrier comes down.
* `OperatorStack.runs_conserve_operators` — all of this in every state that is reached from the empty stack.

## Design Notes

A stack is seen as operators on a floor: `exists_floor` cuts it above the nearest barrier, and what each step does is
an equation about the two parts.  Nothing else is known about the steps in what follows.
-/

namespace JackToolchain.Jack

/-! ## Floors -/

section Floors

variable {floor below : List Pending}

/-- **Every stack** is operators above a floor. -/
theorem exists_floor (entries : List Pending) :
    ∃ above : List Operator, ∃ floor, entries = above.map .operator ++ floor ∧ IsFloor floor := by
  induction entries with
  | nil => exact ⟨[], [], rfl, isFloor_nil⟩
  | cons entry rest ih =>
      cases entry with
      | operator operator =>
          obtain ⟨above, floor, rfl, isFloor⟩ := ih
          exact ⟨operator :: above, floor, rfl, isFloor⟩
      | barrier bracket => exact ⟨[], _, rfl, isFloor_enclose ⟨rest⟩ bracket⟩

/-- A floor is empty, or it begins with a barrier. -/
theorem IsFloor.cases (isFloor : IsFloor floor) :
    floor = [] ∨ ∃ bracket below, floor = .barrier bracket :: below := by
  cases floor with
  | nil => exact .inl rfl
  | cons entry below =>
      cases entry with
      | operator operator => exact absurd (isFloor _ rfl) Bool.false_ne_true
      | barrier bracket => exact .inr ⟨bracket, below, rfl⟩

/-- One floor on another is a floor. -/
theorem IsFloor.append (isFloor : IsFloor floor) (isFloorToo : IsFloor below) : IsFloor (floor ++ below) := by
  obtain rfl | ⟨bracket, rest, rfl⟩ := isFloor.cases
  · exact isFloorToo
  · exact isFloor_enclose ⟨rest ++ below⟩ bracket

end Floors

namespace OperatorStack

/-! ## Steps -/

/-- What can be done with an operator stack. -/
inductive Step where
  /-- A new operator. -/
  | push (operator : Operator)
  /-- An opening bracket. -/
  | enclose (bracket : Bracket)
  /-- A closing bracket, whether or not it belongs to the nearest barrier. -/
  | close (bracket : Bracket)
  /-- The end of an expression. -/
  | flush

/-- The operator that a step pushes. -/
def Step.pushed? : Step → Option Operator
  | .push operator => some operator
  | .enclose _ | .close _ | .flush => none

/-- The operators that are pushed in a run. -/
def pushed (steps : List Step) : List Operator := steps.filterMap Step.pushed?

/-- What a step releases, and the stack that it leaves. -/
def step (stack : OperatorStack) : Step → Release
  | .push operator => stack.push operator
  | .enclose bracket => ⟨[], stack.enclose bracket⟩
  | .close bracket => (stack.close bracket).1
  | .flush => stack.flush

/-- What a run releases, in the order of computation, and the stack that it leaves. -/
def run (stack : OperatorStack) : List Step → Release
  | [] => ⟨[], stack⟩
  | first :: rest =>
    ⟨(stack.step first).operators ++ ((stack.step first).stack.run rest).operators,
      ((stack.step first).stack.run rest).stack⟩

/-- The operators that wait on a stack. -/
def operators (stack : OperatorStack) : List Operator := stack.entries.filterMap Pending.operator?

variable {stack upper base : OperatorStack} {bracket nearest : Bracket} {above : List Operator} {floor : List Pending}

theorem run_cons (stack : OperatorStack) (first : Step) (rest : List Step) : stack.run (first :: rest) =
    ⟨(stack.step first).operators ++ ((stack.step first).stack.run rest).operators,
      ((stack.step first).stack.run rest).stack⟩ := rfl

/-- What a step pushes comes first. -/
theorem pushed_cons (first : Step) (rest : List Step) :
    pushed (first :: rest) = first.pushed?.toList ++ pushed rest := by
  unfold pushed
  cases pushes : first.pushed? with
  | none => exact List.filterMap_cons_none pushes
  | some operator => exact List.filterMap_cons_some pushes

/-! ## Above a floor -/

theorem operators_above_floor (above : List Operator) (floor : List Pending) :
    operators ⟨above.map .operator ++ floor⟩ = above ++ operators ⟨floor⟩ := by
  have keep : Pending.operator? ∘ Pending.operator = some := rfl
  rw [operators, operators, List.filterMap_append, List.filterMap_map, keep, List.filterMap_some]

/-- The nearest barrier is on top of the floor. -/
theorem nearestBarrier?_above_floor (above : List Operator) (isFloor : IsFloor floor) :
    nearestBarrier? ⟨above.map .operator ++ floor⟩ = floor.head?.bind Pending.barrier? := by
  unfold nearestBarrier?
  induction above with
  | nil =>
      obtain rfl | ⟨bracket, below, rfl⟩ := isFloor.cases
      · rfl
      · rfl
  | cons operator rest ih => exact ih

/-- **A closing bracket** releases what is above the floor, and takes the nearest barrier down if it is its own. -/
theorem close_above_floor (above : List Operator) (isFloor : IsFloor floor) (bracket : Bracket) :
    close ⟨above.map .operator ++ floor⟩ bracket =
      if floor.head? = some (.barrier bracket) then (⟨above, ⟨floor.tail⟩⟩, true) else (⟨above, ⟨floor⟩⟩, false) := by
  rw [close, flush_above_floor above isFloor]
  simp only [isAt, beq_iff_eq]

/-- Without a barrier, nothing is closed. -/
theorem close_nothing (above : List Operator) (bracket : Bracket) :
    close ⟨above.map .operator ++ []⟩ bracket = (⟨above, ⟨[]⟩⟩, false) := by
  rw [close_above_floor above isFloor_nil]
  exact if_neg nofun

/-- The nearest barrier belongs to the bracket. -/
theorem close_own (above : List Operator) (bracket : Bracket) (below : List Pending) :
    close ⟨above.map .operator ++ .barrier bracket :: below⟩ bracket = (⟨above, ⟨below⟩⟩, true) := by
  have isFloor : IsFloor (.barrier bracket :: below) := isFloor_enclose ⟨below⟩ bracket
  rw [close_above_floor above isFloor]
  exact if_pos rfl

/-- The nearest barrier belongs to another bracket. -/
theorem close_other (above : List Operator) (other : nearest ≠ bracket) (below : List Pending) :
    close ⟨above.map .operator ++ .barrier nearest :: below⟩ bracket =
      (⟨above, ⟨.barrier nearest :: below⟩⟩, false) := by
  have isFloor : IsFloor (.barrier nearest :: below) := isFloor_enclose ⟨below⟩ nearest
  rw [close_above_floor above isFloor]
  exact if_neg fun onTop => other (Pending.barrier.inj (Option.some.inj onTop))

/-! ## Order -/

/-- The upper of two operators has to be computed first, or either may be. -/
def BindsAsTightly (upper lower : Operator) : Prop := lower.precedence ≤ upper.precedence

instance : Trans BindsAsTightly BindsAsTightly BindsAsTightly := ⟨fun first second => Nat.le_trans second first⟩

/-- **Ascending stacks.**  Among operators without a barrier between them, those that stand higher bind at least as
tightly. -/
def Ascends (stack : OperatorStack) : Prop :=
  ∀ front behind : List Pending, ∀ stretch : List Operator,
    stack.entries = front ++ (stretch.map .operator ++ behind) → stretch.Pairwise BindsAsTightly

/-- Neighbours in order.  A barrier is in order with everything. -/
def InOrder : Pending → Pending → Prop
  | .operator upper, .operator lower => BindsAsTightly upper lower
  | .operator _, .barrier _ | .barrier _, _ => True

/-- It is enough to compare neighbours. -/
theorem ascends_of_isChain (chain : stack.entries.IsChain InOrder) : stack.Ascends := by
  intro front behind stretch cut
  rw [cut] at chain
  have inStretch : stretch.IsChain BindsAsTightly :=
    (List.isChain_map Pending.operator).mp chain.right_of_append.left_of_append
  exact inStretch.pairwise

/-- **A step** keeps neighbours in order: a new operator stands on one that binds no more tightly, and all else is taken
from the top. -/
theorem step_inOrder (chain : stack.entries.IsChain InOrder) (next : Step) :
    (stack.step next).stack.entries.IsChain InOrder := by
  obtain ⟨entries⟩ := stack
  obtain ⟨above, floor, rfl, isFloor⟩ := exists_floor entries
  have onFloor : floor.IsChain InOrder := chain.right_of_append
  cases next with
  | push operator =>
      rw [step, push_above_floor operator above isFloor]
      have kept : ((above.dropWhile (operator.precedence < ·.precedence)).map Pending.operator ++ floor).IsChain
          InOrder :=
        chain.suffix (List.suffix_append_self_iff.mpr ((List.dropWhile_suffix _).map _))
      -- the new operator stands on the first that does not bind more tightly, or on the floor
      refine List.IsChain.cons kept fun entry onTop => ?_
      have stops := List.head?_dropWhile_not (operator.precedence < ·.precedence) above
      cases waiting : above.dropWhile (operator.precedence < ·.precedence) with
      | nil =>
          rw [waiting] at onTop
          obtain rfl | ⟨bracket, below, rfl⟩ := isFloor.cases
          · exact absurd onTop nofun
          · obtain rfl := Option.some.inj onTop
            trivial
      | cons next rest =>
          rw [waiting] at onTop stops
          obtain rfl := Option.some.inj onTop
          exact Nat.not_lt.mp (of_decide_eq_false stops)
  | enclose bracket => exact List.IsChain.cons chain fun entry _ => trivial
  | close bracket =>
      rw [step, close_above_floor above isFloor]
      split
      · exact onFloor.tail
      · exact onFloor
  | flush =>
      rw [step, flush_above_floor above isFloor]
      exact onFloor

/-- **A run** keeps neighbours in order. -/
theorem run_inOrder (chain : stack.entries.IsChain InOrder) (steps : List Step) :
    (stack.run steps).stack.entries.IsChain InOrder := by
  induction steps generalizing stack with
  | nil => exact chain
  | cons next rest ih => exact ih (step_inOrder chain next)

/-! ## Conservation -/

/-- **A step** neither loses nor makes operators. -/
theorem step_conserves (stack : OperatorStack) (next : Step) : (stack.operators ++ next.pushed?.toList).Perm
    ((stack.step next).operators ++ (stack.step next).stack.operators) := by
  obtain ⟨entries⟩ := stack
  obtain ⟨above, floor, rfl, isFloor⟩ := exists_floor entries
  cases next with
  | push operator =>
      have kept : operators ⟨.operator operator ::
          ((above.dropWhile (operator.precedence < ·.precedence)).map .operator ++ floor)⟩ =
            operator :: (above.dropWhile (operator.precedence < ·.precedence) ++ operators ⟨floor⟩) :=
        congrArg (operator :: ·) (operators_above_floor _ floor)
      rw [step, push_above_floor operator above isFloor, operators_above_floor]
      dsimp only [Step.pushed?, Option.toList_some]
      rw [kept]
      -- What is released and what is kept were one run above the barrier; the new operator goes between them.
      refine (List.perm_append_singleton _ _).trans ?_
      refine List.Perm.trans (.of_eq ?_) List.perm_middle.symm
      rw [← List.append_assoc, List.takeWhile_append_dropWhile]
  | enclose bracket => exact .of_eq (List.append_nil _)
  | close bracket =>
      rw [step, close_above_floor above isFloor, operators_above_floor]
      refine List.Perm.trans (.of_eq (List.append_nil _)) (.of_eq ?_)
      split
      · rename_i onTop
        obtain rfl | ⟨nearest, below, rfl⟩ := isFloor.cases
        · exact absurd onTop nofun
        · rfl
      · rfl
  | flush =>
      rw [step, flush_above_floor above isFloor, operators_above_floor]
      exact .of_eq (List.append_nil _)

/-- **A run** neither loses nor makes operators. -/
theorem run_conserves (stack : OperatorStack) (steps : List Step) : (stack.operators ++ pushed steps).Perm
    ((stack.run steps).operators ++ (stack.run steps).stack.operators) := by
  induction steps generalizing stack with
  | nil => exact .of_eq (List.append_nil _)
  | cons next rest ih =>
      rw [pushed_cons, run_cons, List.append_assoc, ← List.append_assoc]
      refine ((stack.step_conserves next).append_right _).trans ?_
      rw [List.append_assoc]
      exact (ih (stack.step next).stack).append_left _

/-- An operator waits on a stack that contains it. -/
theorem contains_operator (stack : OperatorStack) (operator : Operator) :
    stack.contains (.operator operator) = true ↔ operator ∈ stack.operators := by
  rw [contains, List.contains_iff_mem, operators, List.mem_filterMap]
  constructor
  · exact fun member => ⟨_, member, rfl⟩
  · rintro ⟨entry, member, same⟩
    cases entry with
    | operator waiting =>
        obtain rfl := Option.some.inj same
        exact member
    | barrier bracket => exact absurd same nofun

/-- **From the empty stack on**, the operators that were pushed are those that were released and those that the stack
contains. -/
theorem mem_pushed_iff (steps : List Step) (operator : Operator) : operator ∈ pushed steps ↔
    operator ∈ (run {} steps).operators ∨ (run {} steps).stack.contains (.operator operator) = true := by
  have conserved : (pushed steps).Perm ((run {} steps).operators ++ (run {} steps).stack.operators) :=
    run_conserves {} steps
  rw [conserved.mem_iff, List.mem_append, contains_operator]

/-! ## Below a barrier -/

/-- One stack on another. -/
def atop (upper lower : OperatorStack) : OperatorStack := ⟨upper.entries ++ lower.entries⟩

/-- A closing bracket on a stack with a barrier in it does what it does on the part above the barrier, unless it finds
this barrier and is of its bracket. -/
theorem close_atop (above : List Operator) (isFloor : IsFloor floor) (base : OperatorStack) (bracket closed : Bracket) :
    step ⟨above.map .operator ++ (floor ++ (base.enclose bracket).entries)⟩ (.close closed) =
        ⟨(step ⟨above.map .operator ++ floor⟩ (.close closed)).operators,
          (step ⟨above.map .operator ++ floor⟩ (.close closed)).stack.atop (base.enclose bracket)⟩ ∨
      Step.close closed = .close bracket ∧ nearestBarrier? ⟨above.map .operator ++ floor⟩ = none ∧
        step ⟨above.map .operator ++ (floor ++ (base.enclose bracket).entries)⟩ (.close closed) =
          ⟨operators ⟨above.map .operator ++ floor⟩, base⟩ := by
  obtain rfl | ⟨nearest, below, rfl⟩ := isFloor.cases
  -- Without a barrier in the part above, the one below is the nearest.
  · have bare : step ⟨above.map .operator ++ []⟩ (.close closed) = ⟨above, ⟨[]⟩⟩ :=
      congrArg Prod.fst (close_nothing above closed)
    by_cases same : bracket = closed
    · subst same
      have down := congrArg Prod.fst (close_own above bracket base.entries)
      refine .inr ⟨rfl, nearestBarrier?_above_floor above isFloor, down.trans ?_⟩
      rw [operators_above_floor]
      exact congrArg (fun operators => (⟨operators, base⟩ : Release)) (List.append_nil above).symm
    · have stays := congrArg Prod.fst (close_other above same base.entries)
      left
      rw [bare]
      exact stays
  · left
    by_cases same : nearest = closed
    · subst same
      have down := congrArg Prod.fst (close_own above nearest (below ++ (base.enclose bracket).entries))
      have own : step ⟨above.map .operator ++ .barrier nearest :: below⟩ (.close nearest) = ⟨above, ⟨below⟩⟩ :=
        congrArg Prod.fst (close_own above nearest below)
      rw [own]
      exact down
    · have stays := congrArg Prod.fst (close_other above same (below ++ (base.enclose bracket).entries))
      have other : step ⟨above.map .operator ++ .barrier nearest :: below⟩ (.close closed) =
          ⟨above, ⟨.barrier nearest :: below⟩⟩ :=
        congrArg Prod.fst (close_other above same below)
      rw [other]
      exact stays

/-- **A step** on a stack with a barrier in it does what it does on the part above the barrier, unless there is no
barrier in that part and the step closes the bracket of this one. -/
theorem step_atop (upper base : OperatorStack) (bracket : Bracket) (next : Step) :
    (upper.atop (base.enclose bracket)).step next =
        ⟨(upper.step next).operators, (upper.step next).stack.atop (base.enclose bracket)⟩ ∨
      next = .close bracket ∧ upper.nearestBarrier? = none ∧
        (upper.atop (base.enclose bracket)).step next = ⟨upper.operators, base⟩ := by
  obtain ⟨entries⟩ := upper
  obtain ⟨above, floor, rfl, isFloor⟩ := exists_floor entries
  have whole : atop ⟨above.map .operator ++ floor⟩ (base.enclose bracket) =
      ⟨above.map .operator ++ (floor ++ (base.enclose bracket).entries)⟩ :=
    congrArg mk (List.append_assoc _ _ _)
  have isFloorToo := isFloor.append (isFloor_enclose base bracket)
  rw [whole]
  cases next with
  | push operator =>
      left
      rw [step, push_above_floor operator above isFloorToo, step, push_above_floor operator above isFloor, atop]
      dsimp only
      rw [List.cons_append, List.append_assoc]
  | enclose opened =>
      exact .inl (congrArg (fun stack : OperatorStack => (⟨[], stack.enclose opened⟩ : Release)) whole.symm)
  | close closed => exact close_atop above isFloor base bracket closed
  | flush =>
      left
      rw [step, flush_above_floor above isFloorToo, step, flush_above_floor above isFloor]
      rfl

/-- **Guarded stacks.**  A run on a stack with a barrier in it releases what it would release if nothing stood below
the barrier; or, up to the step that takes the barrier down, it does, and then all that stood below is still there. -/
def Guards (upper base : OperatorStack) (bracket : Bracket) (steps : List Step) : Prop :=
  (upper.atop (base.enclose bracket)).run steps =
      ⟨(upper.run steps).operators, (upper.run steps).stack.atop (base.enclose bracket)⟩ ∨
    ∃ front rest, steps = front ++ Step.close bracket :: rest ∧ (upper.run front).stack.nearestBarrier? = none ∧
      (upper.atop (base.enclose bracket)).run front =
        ⟨(upper.run front).operators, (upper.run front).stack.atop (base.enclose bracket)⟩ ∧
      (upper.atop (base.enclose bracket)).run (front ++ [Step.close bracket]) =
        ⟨(upper.run front).operators ++ (upper.run front).stack.operators, base⟩

/-- **What stands below a barrier** does not matter until the barrier comes down. -/
theorem run_atop (upper base : OperatorStack) (bracket : Bracket) (steps : List Step) :
    Guards upper base bracket steps := by
  induction steps generalizing upper with
  | nil => exact .inl rfl
  | cons next rest ih =>
      rcases step_atop upper base bracket next with same | ⟨rfl, none, down⟩
      -- as long as the barrier stands the rest is a run on what the step left above it
      · rcases ih (upper.step next).stack with still | ⟨front, behind, rfl, none, still, down⟩
        · left
          rw [run_cons, same, still]
          rfl
        · refine .inr ⟨next :: front, behind, rfl, none, ?_, ?_⟩
          · rw [run_cons, same, still]
            rfl
          · rw [List.cons_append, run_cons, same, down, run_cons]
            exact congrArg (fun operators => (⟨operators, base⟩ : Release)) (List.append_assoc _ _ _).symm
      · refine .inr ⟨[], rest, rfl, none, rfl, ?_⟩
        rw [List.nil_append, run_cons, down]
        exact congrArg (fun operators => (⟨operators, base⟩ : Release)) (List.append_nil _)

/-! ## Closing brackets -/

/-- **Closing a bracket** releases the operators above the nearest barrier.  It succeeds if that barrier is of the same
bracket, which alone is then taken down; otherwise everything stays from that barrier on. -/
def Drains (stack : OperatorStack) (bracket : Bracket) : Prop :=
  ((stack.close bracket).2 = true ↔ stack.nearestBarrier? = some bracket) ∧
    ∃ rest : OperatorStack, IsFloor rest.entries ∧
      stack.entries = (stack.close bracket).1.operators.map .operator ++ rest.entries ∧
      if stack.nearestBarrier? = some bracket then rest = (stack.close bracket).1.stack.enclose bracket
      else (stack.close bracket).1.stack = rest

theorem close_drains (stack : OperatorStack) (bracket : Bracket) : stack.Drains bracket := by
  obtain ⟨entries⟩ := stack
  obtain ⟨above, floor, rfl, isFloor⟩ := exists_floor entries
  rw [Drains, nearestBarrier?_above_floor above isFloor]
  obtain rfl | ⟨nearest, below, rfl⟩ := isFloor.cases
  · rw [close_nothing]
    exact ⟨iff_of_false Bool.false_ne_true nofun, ⟨[]⟩, isFloor, rfl, rfl⟩
  · by_cases same : nearest = bracket
    · subst same
      rw [close_own]
      exact ⟨iff_of_true rfl rfl, ⟨.barrier nearest :: below⟩, isFloor, rfl, (if_pos rfl).mpr rfl⟩
    · have other : ((Pending.barrier nearest :: below).head?.bind Pending.barrier?) ≠ some bracket :=
        fun onTop => same (Option.some.inj onTop)
      rw [close_other above same]
      exact ⟨iff_of_false Bool.false_ne_true other, ⟨.barrier nearest :: below⟩, isFloor, rfl, (if_neg other).mpr rfl⟩

/-! ## Reachable stacks -/

/-- **Operators are conserved across barriers.**  In every state that a run reaches from the empty stack: the stack
ascends between barriers; what was pushed has been released or is still waiting, each operator as often as it was
pushed; whatever is done next, nothing below a barrier is released or moved as long as that barrier stands; and a
closing bracket succeeds exactly if it closes the nearest barrier. -/
theorem runs_conserve_operators (steps : List Step) :
    (run {} steps).stack.Ascends ∧
      (pushed steps).Perm ((run {} steps).operators ++ (run {} steps).stack.operators) ∧
      (∀ upper base bracket, (run {} steps).stack = atop upper (base.enclose bracket) →
        ∀ more, Guards upper base bracket more) ∧
      ∀ bracket, (run {} steps).stack.Drains bracket := by
  refine ⟨ascends_of_isChain (run_inOrder List.IsChain.nil steps), run_conserves {} steps, ?_,
    close_drains (run {} steps).stack⟩
  intro upper base bracket _ more
  exact run_atop upper base bracket more

/-- The product in `x * a[i + j < k]` waits until the index is closed, and the sum does not. -/
theorem product_waits_for_the_index :
    (run {} [.push (.binary .mul), .enclose .square, .push (.binary .add)]).stack =
        atop ⟨[.operator (.binary .add)]⟩ (enclose ⟨[.operator (.binary .mul)]⟩ .square) ∧
      Guards ⟨[.operator (.binary .add)]⟩ ⟨[.operator (.binary .mul)]⟩ .square
        [.push (.binary .lt), .close .square] ∧
      run {} [.push (.binary .mul), .enclose .square, .push (.binary .add), .push (.binary .lt), .close .square] =
        ⟨[.binary .add, .binary .lt], ⟨[.operator (.binary .mul)]⟩⟩ :=
  ⟨rfl, (runs_conserve_operators [.push (.binary .mul), .enclose .square, .push (.binary .add)]).2.2.1 _ _ _ rfl _,
    by decide⟩

end OperatorStack

end JackToolchain.Jack
