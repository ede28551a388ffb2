import Mathlib.Data.List.TakeWhile
import JackToolchain.Jack.Expression.Code
import JackToolchain.Proofs.Jack.Written

/-!
# Precedence

In which order the operators of an expression are computed.

The code generator never builds a tree: operands are computed where they stand, and operators wait
on one stack, which parentheses and array indices share with the expression around them.  This file
gives the order as a tree and shows that the stack produces the code of that tree.

## Main Definitions

* `BinaryOperator.looseness` — the rank of a binary operator, `&` and `|` lowest, the comparisons
  highest.  Unary operators bind more tightly than all of them.
* `Tree` — an expression with its operators applied to their operands.
* `Tree.ofChain` — the tree of a chain: the leftmost of its loosest operators is applied last.
* `Tree.code` — the code of a tree in post-order; `Tree.codeBy` says besides how operands are counted.
* `shunt` — what the operator stack does to a chain, on the code of its operands.

## Main Statements

* `Tree.ofChain_append` — an operator that binds more loosely than all in front of it, and no more
  tightly than all behind it, is the root.  In particular equally loose operators associate to the
  right.
* `codeBy_ofChain` — the operator stack produces the post-order code of the tree of a chain.
* `emit_expression` — the code of an expression on a stack that may hold operators of enclosing
  expressions: what it leaves above the nearest barrier is exactly what its tree still lacks.
* `code_resolved` — the code of a whole expression is that of its tree, its calls counted in sixteen bits.
* `Expression.codeBy_counted` — as long as its calls fit, that makes no difference.

## Design Notes

The invariant is stated at the level of the stack: an expression may leave operators waiting above
the barrier that its surroundings have put up, and the released code followed by the code of those
operators is the code of the tree (`Leaves`).  An operand leaves unary operators only; whatever
follows it releases them all, so they count as computed at once.
-/

namespace JackToolchain.Jack

open Vm

/-! ## Stretches of a list -/

/-- What stands behind an entry that fails the test is not reached. -/
private theorem takeWhile_append_of_stop {α : Type} {test : α → Bool} {front behind : List α}
    (stop : ∀ entry ∈ behind.head?, test entry = false) :
    (front ++ behind).takeWhile test = front.takeWhile test := by
  induction front with
  | nil =>
      cases behind with
      | nil => rfl
      | cons entry rest => exact List.takeWhile_cons_of_neg (Bool.eq_false_iff.mp (stop entry rfl))
  | cons entry rest ih =>
      rw [List.cons_append, List.takeWhile_cons, List.takeWhile_cons, ih]

/-- …and stays. -/
private theorem dropWhile_append_of_stop {α : Type} {test : α → Bool} {front behind : List α}
    (stop : ∀ entry ∈ behind.head?, test entry = false) :
    (front ++ behind).dropWhile test = front.dropWhile test ++ behind := by
  induction front with
  | nil =>
      cases behind with
      | nil => rfl
      | cons entry rest => exact List.dropWhile_cons_of_neg (Bool.eq_false_iff.mp (stop entry rfl))
  | cons entry rest ih =>
      rw [List.cons_append, List.dropWhile_cons, List.dropWhile_cons, ih]
      split
      · rfl
      · rfl

/-! ## Trees -/

/-- How loosely an operator binds: bitwise operators least, then products, then sums, then
comparisons. -/
def BinaryOperator.looseness : BinaryOperator → Nat
  | .and | .or => 0
  | .mul | .div => 1
  | .add | .sub => 2
  | .lt | .gt | .eq => 3

/-- The instruction that applies a binary operator; products and quotients are calls of library
routines with two arguments. -/
def BinaryOperator.instruction (library : Library) : BinaryOperator → Instruction
  | .add => .operate .add
  | .sub => .operate .sub
  | .mul => .call library.multiply 2
  | .div => .call library.divide 2
  | .and => .operate .and
  | .or => .operate .or
  | .lt => .operate .lt
  | .gt => .operate .gt
  | .eq => .operate .eq

/-- The instruction that applies a unary operator. -/
def UnaryOperator.instruction : UnaryOperator → Instruction
  | .neg => .operate .neg
  | .not => .operate .not

namespace Written

/-- An expression with every operator applied to its operands. -/
inductive Tree where
  | integer (value : Nat)
  | string (content : String)
  | true_
  | false_
  | null
  | this
  | variable (name : String)
  | element (array : String) (index : Tree)
  | call (callee : Callee) (arguments : List Tree)
  | unary (operator : UnaryOperator) (operand : Tree)
  | binary (operator : BinaryOperator) (left right : Tree)

/-- A chain behind its first operand: operators, each with the operand behind it. -/
abbrev Steps (α : Type) := List (BinaryOperator × α)

/-- The rank of the loosest operator of a chain. -/
def loosest {α : Type} (steps : Steps α) : Nat :=
  (steps.map (·.1.looseness)).foldr max 0

/-- The steps in front of the first operator of the highest rank. -/
def tighterFront {α : Type} (steps : Steps α) : Steps α :=
  steps.takeWhile (·.1.looseness < loosest steps)

/-- The steps from the first operator of the highest rank on. -/
def fromLoosest {α : Type} (steps : Steps α) : Steps α :=
  steps.dropWhile (·.1.looseness < loosest steps)

theorem length_tighterFront_add {α : Type} (steps : Steps α) :
    (tighterFront steps).length + (fromLoosest steps).length = steps.length := by
  rw [← List.length_append, tighterFront, fromLoosest, List.takeWhile_append_dropWhile]

/-- **The tree of a chain.**  The leftmost of the loosest operators is applied last, to the tree of
what stands in front of it and the tree of what stands behind it. -/
def Tree.ofChain (first : Tree) (steps : Steps Tree) : Tree :=
  match _h : fromLoosest steps with
  | [] => first
  | (operator, next) :: behind =>
    .binary operator (ofChain first (tighterFront steps)) (ofChain next behind)
termination_by steps.length
decreasing_by
  all_goals
    have := length_tighterFront_add steps
    simp only [_h, List.length_cons] at this
    omega

mutual

/-- The tree of an operand.  Parentheses leave no trace. -/
def Term.tree : Term → Tree
  | .integer value => .integer value
  | .string content => .string content
  | .true_ => .true_
  | .false_ => .false_
  | .null => .null
  | .this => .this
  | .variable name => .variable name
  | .element array index => .element array index.tree
  | .call callee arguments => .call callee (argumentTrees arguments)
  | .group inner => inner.tree
  | .unary operator operand => .unary operator operand.tree

/-- The tree of an expression. -/
def Expression.tree : Expression → Tree
  | .chain first rest => .ofChain first.tree (restTrees rest)

/-- The operators of a chain with the trees of the operands behind them. -/
def restTrees : List (BinaryOperator × Term) → Steps Tree
  | [] => []
  | (operator, operand) :: rest => (operator, operand.tree) :: restTrees rest

/-- The trees of the arguments of a call. -/
def argumentTrees : List Expression → List Tree
  | [] => []
  | argument :: rest => argument.tree :: argumentTrees rest

end

theorem argumentTrees_eq_map (arguments : List Expression) :
    argumentTrees arguments = arguments.map (·.tree) := by
  induction arguments with
  | nil => rfl
  | cons argument rest ih =>
      rw [argumentTrees, ih]
      rfl

section Code

variable (count : Nat → Nat) (library : Library) (table : Symbol.Table) (className : String)

mutual

/-- The code of a tree in post-order, where calls say how many operands they pass as they are counted. -/
def Tree.codeBy : Tree → List Instruction
  | .integer value => [.push .constant value]
  | .string content =>
    [.push .constant content.toList.length, .call library.newString 1] ++
      content.toList.flatMap fun c => [.push .constant c.toNat, .call library.appendCharacter 2]
  | .true_ => [.push .constant 0, .operate .not]
  | .false_ => [.push .constant 0]
  | .null => [.push .constant 0]
  | .this => [.push .pointer 0]
  | .variable name => [(placeOf table name).push]
  | .element array index =>
    (placeOf table array).push ::
      (index.codeBy ++ [.operate .add, .pop .pointer 1, .push .that 0])
  | .call callee arguments =>
    (callee.receiver table).toList.map Place.push ++ codesBy arguments ++
      [.call (callee.function table className)
        (count (arguments.length + (callee.receiver table).toList.length))]
  | .unary operator operand => operand.codeBy ++ [operator.instruction]
  | .binary operator left right => left.codeBy ++ right.codeBy ++ [operator.instruction library]

/-- The code of trees, one after the other. -/
def codesBy : List Tree → List Instruction
  | [] => []
  | tree :: rest => tree.codeBy ++ codesBy rest

end

end Code

/-- **The code of a tree in post-order**: operands from left to right, then what is done with them.  A
call says how many operands it passes. -/
def Tree.code (library : Library) (table : Symbol.Table) (className : String) (tree : Tree) :
    List Instruction :=
  tree.codeBy id library table className

/-! ## The root of a chain -/

@[simp] theorem Tree.ofChain_nil (first : Tree) : Tree.ofChain first [] = first := by
  rw [Tree.ofChain]
  rfl

/-- The rank of the root is that of the loosest operator. -/
private theorem loosest_append {α : Type} {front behind : Steps α} {operator : BinaryOperator}
    (next : α) (inFront : ∀ step ∈ front, step.1.looseness < operator.looseness)
    (atBack : ∀ step ∈ behind, step.1.looseness ≤ operator.looseness) :
    loosest (front ++ (operator, next) :: behind) = operator.looseness := by
  have behindBound : loosest behind ≤ operator.looseness := by
    clear inFront
    induction behind with
    | nil => exact Nat.zero_le _
    | cons step rest ih =>
        obtain ⟨bounded, others⟩ := List.forall_mem_cons.mp atBack
        exact Nat.max_le.mpr ⟨bounded, ih others⟩
  induction front with
  | nil => exact Nat.max_eq_left behindBound
  | cons step rest ih =>
      obtain ⟨bounded, others⟩ := List.forall_mem_cons.mp inFront
      show max step.1.looseness (loosest (rest ++ (operator, next) :: behind)) = _
      rw [ih others]
      exact Nat.max_eq_right (Nat.le_of_lt bounded)

/-- **The root.**  An operator that binds more loosely than all in front of it and at least as loosely
as all behind it is applied last.  With equally loose operators the leftmost is the root, so they
associate to the right. -/
theorem Tree.ofChain_append (first : Tree) {front behind : Steps Tree}
    {operator : BinaryOperator} {next : Tree}
    (inFront : ∀ step ∈ front, step.1.looseness < operator.looseness)
    (atBack : ∀ step ∈ behind, step.1.looseness ≤ operator.looseness) :
    Tree.ofChain first (front ++ (operator, next) :: behind) =
      .binary operator (Tree.ofChain first front) (Tree.ofChain next behind) := by
  have rank := loosest_append next inFront atBack
  have front_eq : tighterFront (front ++ (operator, next) :: behind) = front := by
    rw [tighterFront, rank, List.takeWhile_append_of_pos (by simpa using inFront),
      List.takeWhile_cons_of_neg (by simp), List.append_nil]
  have behind_eq : fromLoosest (front ++ (operator, next) :: behind) =
      (operator, next) :: behind := by
    rw [fromLoosest, rank, List.dropWhile_append_of_pos (by simpa using inFront),
      List.dropWhile_cons_of_neg (by simp)]
  rw [Tree.ofChain]
  split
  · rename_i none
    rw [behind_eq] at none
    exact absurd none (by simp)
  · rename_i some
    rw [behind_eq] at some
    obtain ⟨same, rfl⟩ := List.cons.inj some
    obtain ⟨rfl, rfl⟩ := Prod.mk.inj same
    rw [front_eq]

/-- An operator at least as loose as all behind it takes all of them for its right operand. -/
theorem Tree.ofChain_cons (first : Tree) {operator : BinaryOperator} {next : Tree}
    {behind : Steps Tree} (atBack : ∀ step ∈ behind, step.1.looseness ≤ operator.looseness) :
    Tree.ofChain first ((operator, next) :: behind) =
      .binary operator first (Tree.ofChain next behind) := by
  rw [← List.nil_append ((operator, next) :: behind),
    Tree.ofChain_append first (List.forall_mem_nil _) atBack, Tree.ofChain_nil]

/-- A chain that is not empty has a root. -/
private theorem exists_root {α : Type} (step : BinaryOperator × α) (rest : Steps α) :
    ∃ (front : Steps α) (operator : BinaryOperator) (next : α) (behind : Steps α),
      step :: rest = front ++ (operator, next) :: behind ∧
      (∀ step ∈ front, step.1.looseness < operator.looseness) ∧
      ∀ step ∈ behind, step.1.looseness ≤ operator.looseness := by
  induction rest generalizing step with
  | nil => exact ⟨[], step.1, step.2, [], rfl, by simp, by simp⟩
  | cons second rest ih =>
      obtain ⟨front, operator, next, behind, same, inFront, atBack⟩ := ih second
      by_cases looser : operator.looseness ≤ step.1.looseness
      · refine ⟨[], step.1, step.2, second :: rest, rfl, by simp, ?_⟩
        intro other member
        rw [same, List.mem_append, List.mem_cons] at member
        rcases member with member | rfl | member
        · exact Nat.le_trans (Nat.le_of_lt (inFront other member)) looser
        · exact looser
        · exact Nat.le_trans (atBack other member) looser
      · refine ⟨step :: front, operator, next, behind, by rw [same]; rfl, ?_, atBack⟩
        exact List.forall_mem_cons.mpr ⟨by omega, inFront⟩

/-- **Induction along the roots of a chain**: a chain is empty, or it has a root with a chain in front
of it and a chain behind it. -/
theorem Steps.root_induction {α : Type} {motive : Steps α → Prop} (nil : motive [])
    (root : ∀ (front : Steps α) (operator : BinaryOperator) (next : α) (behind : Steps α),
      (∀ step ∈ front, step.1.looseness < operator.looseness) →
      (∀ step ∈ behind, step.1.looseness ≤ operator.looseness) →
      motive front → motive behind → motive (front ++ (operator, next) :: behind))
    (steps : Steps α) : motive steps := by
  induction h : steps.length using Nat.strongRecOn generalizing steps with
  | ind n ih =>
      subst h
      cases steps with
      | nil => exact nil
      | cons step rest =>
          obtain ⟨front, operator, next, behind, same, inFront, atBack⟩ :=
            exists_root step rest
          have length := congrArg List.length same
          simp only [List.length_cons, List.length_append] at length
          rw [same]
          exact root front operator next behind inFront atBack
            (ih _ (by simp only [List.length_cons]; omega) front rfl)
            (ih _ (by simp only [List.length_cons]; omega) behind rfl)

/-! ## What the operator stack does to a chain -/

/-- The code behind the first operand of a chain, given the binary operators that wait for it, the
newest first. -/
def shunt (library : Library) : List BinaryOperator → Steps (List Instruction) → List Instruction
  | waiting, [] => waiting.map (·.instruction library)
  | waiting, (operator, operand) :: rest =>
    (waiting.takeWhile (·.looseness < operator.looseness)).map (·.instruction library) ++
      (operand ++
        shunt library (operator :: waiting.dropWhile (·.looseness < operator.looseness)) rest)

/-- Operators that bind no more tightly than any operator of the chain wait until its end. -/
theorem shunt_append_floor (library : Library) (waiting floor : List BinaryOperator)
    (steps : Steps (List Instruction))
    (loose : ∀ below ∈ floor, ∀ step ∈ steps, step.1.looseness ≤ below.looseness) :
    shunt library (waiting ++ floor) steps =
      shunt library waiting steps ++ floor.map (·.instruction library) := by
  induction steps generalizing waiting with
  | nil => exact List.map_append
  | cons step rest ih =>
      obtain ⟨operator, operand⟩ := step
      have stays : ∀ below ∈ floor.head?,
          decide (below.looseness < operator.looseness) = false := by
        intro below member
        have bound := loose below (List.mem_of_mem_head? member) _ List.mem_cons_self
        exact decide_eq_false (Nat.not_lt.mpr bound)
      rw [shunt, shunt, takeWhile_append_of_stop stays, dropWhile_append_of_stop stays,
        ← List.cons_append, ih, List.append_assoc, List.append_assoc]
      intro below member step stepMember
      exact loose below member step (List.mem_cons_of_mem _ stepMember)

/-- The root releases everything in front of it. -/
theorem shunt_append_root (library : Library) (waiting : List BinaryOperator)
    (front behind : Steps (List Instruction)) (operator : BinaryOperator)
    (operand : List Instruction)
    (waitingTighter : ∀ above ∈ waiting, above.looseness < operator.looseness)
    (inFront : ∀ step ∈ front, step.1.looseness < operator.looseness) :
    shunt library waiting (front ++ (operator, operand) :: behind) =
      shunt library waiting front ++ operand ++ shunt library [operator] behind := by
  induction front generalizing waiting with
  | nil =>
      have all : ∀ above ∈ waiting, decide (above.looseness < operator.looseness) = true := by
        intro above member
        exact decide_eq_true (waitingTighter above member)
      rw [List.nil_append, shunt, shunt, List.takeWhile_eq_self_iff.mpr all,
        List.dropWhile_eq_nil_iff.mpr all, List.append_assoc]
  | cons step rest ih =>
      obtain ⟨inner, innerOperand⟩ := step
      obtain ⟨innerTighter, others⟩ := List.forall_mem_cons.mp inFront
      have stillTighter : ∀ above ∈
          inner :: waiting.dropWhile (·.looseness < inner.looseness),
          above.looseness < operator.looseness := by
        refine List.forall_mem_cons.mpr ⟨innerTighter, ?_⟩
        intro above member
        exact waitingTighter above ((List.dropWhile_sublist _).subset member)
      rw [List.cons_append, shunt, shunt, ih _ stillTighter others]
      simp only [List.append_assoc]

/-- **The stack computes the tree.**  The code that the operator stack makes of a chain is the
post-order code of its tree. -/
theorem codeBy_ofChain (count : Nat → Nat) (library : Library) (table : Symbol.Table)
    (className : String) (first : Tree) (steps : Steps Tree) :
    first.codeBy count library table className ++
        shunt library [] (steps.map fun step => (step.1, step.2.codeBy count library table className)) =
      (Tree.ofChain first steps).codeBy count library table className := by
  induction steps using Steps.root_induction generalizing first with
  | nil => rw [Tree.ofChain_nil, List.map_nil, shunt, List.map_nil, List.append_nil]
  | root front operator next behind inFront atBack ihFront ihBehind =>
      -- In front of the root the stack has run empty; behind it, the root waits to the end.
      have rootWaits : shunt library [operator]
            (behind.map fun step => (step.1, step.2.codeBy count library table className)) =
          shunt library [] (behind.map fun step => (step.1, step.2.codeBy count library table className)) ++
            [operator.instruction library] := by
        refine shunt_append_floor library [] [operator] _ ?_
        intro below member step stepMember
        obtain ⟨source, sourceMember, rfl⟩ := List.mem_map.mp stepMember
        rw [List.mem_singleton.mp member]
        exact atBack source sourceMember
      have frontTighter : ∀ step ∈
          front.map fun step => (step.1, step.2.codeBy count library table className),
          step.1.looseness < operator.looseness := by
        intro step stepMember
        obtain ⟨source, sourceMember, rfl⟩ := List.mem_map.mp stepMember
        exact inFront source sourceMember
      rw [Tree.ofChain_append first inFront atBack, Tree.codeBy, ← ihFront first, ← ihBehind next,
        List.map_append, List.map_cons,
        shunt_append_root library [] _ _ operator _ (by simp) frontTighter, rootWaits]
      simp only [List.append_assoc]

end Written

/-! ## The operator stack above a barrier -/

/-- Nothing of `floor` is released before the barrier on top of it is taken down. -/
def IsFloor (floor : List Pending) : Prop := ∀ entry ∈ floor.head?, entry.isBarrier = true

theorem isFloor_nil : IsFloor [] := by
  rintro entry ⟨⟩

theorem isFloor_enclose (pending : OperatorStack) (bracket : Bracket) :
    IsFloor (pending.enclose bracket).entries := by
  rintro entry ⟨⟩
  rfl

/-- Operators above a floor are released as far as the test holds. -/
theorem releaseWhile_above_floor (test : Pending → Bool) (above : List Operator)
    {floor : List Pending} (stop : ∀ entry ∈ floor.head?, test entry = false) :
    (⟨above.map .operator ++ floor⟩ : OperatorStack).releaseWhile test =
      ⟨above.takeWhile (test ∘ .operator),
        ⟨(above.dropWhile (test ∘ .operator)).map .operator ++ floor⟩⟩ := by
  have keep : Pending.operator? ∘ Pending.operator = some := rfl
  unfold OperatorStack.releaseWhile
  rw [takeWhile_append_of_stop stop, dropWhile_append_of_stop stop, List.takeWhile_map,
    List.dropWhile_map, List.filterMap_map, keep, List.filterMap_some]

/-- What an operator releases above a floor: those above it that bind more tightly. -/
theorem push_above_floor (operator : Operator) (above : List Operator) {floor : List Pending}
    (isFloor : IsFloor floor) :
    (⟨above.map .operator ++ floor⟩ : OperatorStack).push operator =
      ⟨above.takeWhile (operator.precedence < ·.precedence),
        ⟨.operator operator ::
          ((above.dropWhile (operator.precedence < ·.precedence)).map .operator ++ floor)⟩⟩ := by
  have stop : ∀ entry ∈ floor.head?, Pending.bindsTighter operator entry = false := by
    intro entry member
    cases entry with
    | operator waiting => exact absurd (isFloor _ member) Bool.false_ne_true
    | barrier bracket => rfl
  rw [OperatorStack.push, releaseWhile_above_floor _ above stop]
  rfl

/-- Everything above a floor is released at the end. -/
theorem flush_above_floor (above : List Operator) {floor : List Pending}
    (isFloor : IsFloor floor) :
    (⟨above.map .operator ++ floor⟩ : OperatorStack).flush = ⟨above, ⟨floor⟩⟩ := by
  have stop : ∀ entry ∈ floor.head?, (!entry.isBarrier) = false := by
    intro entry member
    rw [isFloor entry member]
    rfl
  have all : ∀ operator ∈ above, ((!·.isBarrier) ∘ Pending.operator) operator = true :=
    fun _ _ => rfl
  rw [OperatorStack.flush, releaseWhile_above_floor _ above stop,
    List.takeWhile_eq_self_iff.mpr all, List.dropWhile_eq_nil_iff.mpr all]
  rfl

/-- A closing bracket releases what waits above the barrier of its own bracket and takes that barrier
down. -/
theorem close_above_enclose (above : List Operator) (pending : OperatorStack)
    (bracket : Bracket) :
    (⟨above.map .operator ++ (pending.enclose bracket).entries⟩ : OperatorStack).close bracket =
      (⟨above, pending⟩, true) := by
  have top : (⟨(pending.enclose bracket).entries⟩ : OperatorStack).isAt bracket = true := by
    simp [OperatorStack.isAt, OperatorStack.enclose]
  rw [OperatorStack.close, flush_above_floor above (isFloor_enclose pending bracket)]
  exact if_pos top

/-- A unary operator releases nothing. -/
theorem push_unary (pending : OperatorStack) (operator : UnaryOperator) :
    pending.push (.unary operator) = ⟨[], ⟨.operator (.unary operator) :: pending.entries⟩⟩ := by
  have never : ∀ entry, Pending.bindsTighter (.unary operator) entry = false := by
    intro entry
    cases entry with
    | operator waiting =>
        cases waiting with
        | binary waiting => cases waiting <;> rfl
        | unary waiting => rfl
    | barrier bracket => rfl
  obtain ⟨entries⟩ := pending
  have nothing := releaseWhile_above_floor _ [] fun entry (_ : entry ∈ entries.head?) => never entry
  rw [OperatorStack.push]
  exact congrArg (fun release => (⟨release.operators,
    ⟨.operator (.unary operator) :: release.stack.entries⟩⟩ : Release)) nothing

/-- The precedence of the operator stack is the opposite of looseness. -/
theorem precedence_lt_iff (operator waiting : BinaryOperator) :
    (Operator.binary operator).precedence < (Operator.binary waiting).precedence ↔
      waiting.looseness < operator.looseness := by
  cases operator <;> cases waiting <;> decide

/-- Released binary operators are the instructions of the tree's operators… -/
theorem map_instruction_binary (library : Library) (operators : List BinaryOperator) :
    (operators.map Operator.binary).map (·.instruction library) =
      operators.map (·.instruction library) := by
  rw [List.map_map]
  apply List.map_congr_left
  intro operator _
  cases operator <;> rfl

/-- …and so are released unary ones. -/
theorem map_instruction_unary (library : Library) (operators : List UnaryOperator) :
    (operators.map Operator.unary).map (·.instruction library) =
      operators.map (·.instruction) := by
  rw [List.map_map]
  apply List.map_congr_left
  intro operator _
  cases operator <;> rfl

/-- Operators that wait above a floor: unary ones on top, binary ones below them, the newest first. -/
def waitingAbove (floor : List Pending) (unaries : List UnaryOperator)
    (waiting : List BinaryOperator) : OperatorStack :=
  ⟨(unaries.map Operator.unary ++ waiting.map Operator.binary).map .operator ++ floor⟩

/-- What a binary operator releases: the unary operators on top, and below them the binary ones that
bind more tightly. -/
theorem push_binary (operator : BinaryOperator) (unaries : List UnaryOperator)
    (waiting : List BinaryOperator) {floor : List Pending} (isFloor : IsFloor floor) :
    (waitingAbove floor unaries waiting).push (.binary operator) =
      ⟨unaries.map .unary ++ (waiting.takeWhile (·.looseness < operator.looseness)).map .binary,
        waitingAbove floor []
          (operator :: waiting.dropWhile (·.looseness < operator.looseness))⟩ := by
  have unary : ∀ above ∈ unaries.map Operator.unary,
      decide ((Operator.binary operator).precedence < above.precedence) = true := by
    intro above member
    obtain ⟨inner, -, rfl⟩ := List.mem_map.mp member
    cases operator <;> rfl
  have binary : (fun above : Operator =>
        decide ((Operator.binary operator).precedence < above.precedence)) ∘ Operator.binary =
      fun waiting => decide (waiting.looseness < operator.looseness) := by
    funext waiting
    exact decide_eq_decide.mpr (precedence_lt_iff operator waiting)
  rw [waitingAbove, push_above_floor _ _ isFloor, List.takeWhile_append_of_pos unary,
    List.dropWhile_append_of_pos unary, List.takeWhile_map, List.dropWhile_map, binary]
  rfl

/-! ## Emitted code -/

namespace Written

/-- **What an emission leaves.**  Above the floor it leaves the operators `above`, and what it has
emitted followed by those operators is `code`. -/
structure Leaves (library : Library) (emission : Emission) (floor : List Pending)
    (above : List Operator) (code : List Instruction) : Prop where
  pending : emission.pending = ⟨above.map .operator ++ floor⟩
  code : emission.passage.code ++ above.map (·.instruction library) = code

section Emission

variable (library : Library) (table : Symbol.Table) (className : String)

/-- The operators of a chain with the code of the operands behind them. -/
def operandCodes (rest : List (BinaryOperator × Term)) : Steps (List Instruction) :=
  (restTrees rest).map fun step => (step.1, step.2.codeBy counted library table className)

/-- An operand that is computed where it stands leaves no operator. -/
theorem leaves_nil {emission : Emission} {pending : OperatorStack} {code : List Instruction}
    (same : emission.pending = pending) (computed : emission.passage.code = code) :
    ∃ unaries : List UnaryOperator,
      Leaves library emission pending.entries (unaries.map .unary) code :=
  ⟨[], same, by rw [computed]; exact List.append_nil _⟩

/-- Above an empty floor, releasing everything completes the code. -/
theorem finish_leaves {emission : Emission} {above : List Operator} {code : List Instruction}
    (leaves : Leaves library emission [] above code) : (emission.finish library).code = code := by
  rw [Emission.finish, Passage.code_append, leaves.pending, flush_above_floor above isFloor_nil,
    Release.code_passage]
  exact leaves.code

/-- Once its bracket is closed, an expression has emitted the code of its tree and left nothing. -/
theorem close_leaves {emission : Emission} {pending : OperatorStack} {bracket : Bracket}
    {above : List Operator} {code : List Instruction}
    (leaves : Leaves library emission (pending.enclose bracket).entries above code) :
    (emission.pending.close bracket).1.stack = pending ∧
      emission.passage.code ++ ((emission.pending.close bracket).1.passage library).code = code := by
  rw [leaves.pending, close_above_enclose]
  exact ⟨rfl, by rw [Release.code_passage]; exact leaves.code⟩

mutual

/-- An operand leaves only unary operators of its own. -/
theorem emit_term (term : Term) (pending : OperatorStack) :
    ∃ unaries : List UnaryOperator,
      Leaves library ((term.resolved table className).emit library pending) pending.entries
        (unaries.map .unary) (term.tree.codeBy counted library table className) := by
  cases term with
  | integer value => exact leaves_nil library rfl (Passage.code_block _)
  | string content => exact leaves_nil library rfl (Passage.code_block _)
  | true_ => exact leaves_nil library rfl (Passage.code_block _)
  | false_ => exact leaves_nil library rfl (Passage.code_block _)
  | null => exact leaves_nil library rfl (Passage.code_block _)
  | this => exact leaves_nil library rfl (Passage.code_block _)
  | «variable» name => exact leaves_nil library rfl (Passage.code_block _)
  | element array index =>
      -- Above the barrier the index starts as if nothing waited, and closing releases what it left there.
      obtain ⟨above, leaves⟩ :=
        emit_expression index (pending.enclose .square) (isFloor_enclose pending .square)
      obtain ⟨stack, code⟩ := close_leaves library leaves
      refine leaves_nil library stack ?_
      rw [Term.resolved, Jack.Term.emit, Term.tree, Tree.codeBy, ← code]
      simp only [Passage.code_append, Passage.code_block, List.append_assoc, List.cons_append,
        List.nil_append]
      rfl
  | call callee arguments =>
      have code := code_arguments arguments
      refine leaves_nil library rfl ?_
      rw [Term.resolved, Jack.Term.emit, Term.tree, Tree.codeBy, Passage.code_append,
        Passage.code_append, code, Passage.code_block, Passage.code_block, callInstruction,
        resolvedArguments_eq_map, argumentTrees_eq_map, List.length_map, List.length_map]
      cases callee.receiver table <;> rfl
  | group inner =>
      obtain ⟨above, leaves⟩ :=
        emit_expression inner (pending.enclose .round) (isFloor_enclose pending .round)
      obtain ⟨stack, code⟩ := close_leaves library leaves
      refine leaves_nil library stack ?_
      rw [Term.resolved, Jack.Term.emit, Passage.code_append]
      exact code
  | unary operator operand =>
      obtain ⟨unaries, left, code⟩ :=
        emit_term operand ⟨.operator (.unary operator) :: pending.entries⟩
      refine ⟨unaries ++ [operator], ?_, ?_⟩
      · rw [Term.resolved, Jack.Term.emit, push_unary, left]
        simp only [List.map_append, List.map_cons, List.map_nil, List.append_assoc,
          List.cons_append, List.nil_append]
      · rw [map_instruction_unary] at code ⊢
        rw [Term.resolved, Jack.Term.emit, push_unary, Term.tree, Tree.codeBy, ← code,
          Passage.code_append, Release.code_passage, List.map_nil, List.nil_append,
          List.map_append]
        exact (List.append_assoc _ _ _).symm

/-- An expression above a floor leaves operators whose release completes its tree. -/
theorem emit_expression (expression : Expression) (pending : OperatorStack)
    (isFloor : IsFloor pending.entries) :
    ∃ above : List Operator,
      Leaves library ((expression.resolved table className).emit library pending) pending.entries
        above (expression.tree.codeBy counted library table className) := by
  cases expression with
  | chain first rest =>
      obtain ⟨unaries, left, code⟩ := emit_term first pending
      obtain ⟨above, behindLeft, behindCode⟩ := emit_rest rest unaries [] isFloor
      have same : ((first.resolved table className).emit library pending).pending =
          waitingAbove pending.entries unaries [] := by
        rw [left, waitingAbove, List.map_nil, List.append_nil]
      refine ⟨above, ?_, ?_⟩
      · rw [Expression.resolved, Jack.Expression.emit, same]
        exact behindLeft
      · rw [Expression.resolved, Jack.Expression.emit, same, Passage.code_append,
          List.append_assoc, behindCode, Expression.tree, ← codeBy_ofChain, ← code]
        rw [map_instruction_unary, List.append_assoc]
        rfl

/-- The operators and operands behind the first operand, given the unary operators of that operand
and the binary operators that wait. -/
theorem emit_rest (rest : List (BinaryOperator × Term)) (unaries : List UnaryOperator)
    (waiting : List BinaryOperator) {floor : List Pending} (isFloor : IsFloor floor) :
    ∃ above : List Operator,
      Leaves library
        (emitRest library (waitingAbove floor unaries waiting) (resolvedRest table className rest))
        floor above
        (unaries.map (·.instruction) ++
          shunt library waiting (operandCodes library table className rest)) := by
  cases rest with
  | nil =>
      refine ⟨unaries.map .unary ++ waiting.map .binary, rfl, ?_⟩
      rw [List.map_append, map_instruction_unary, map_instruction_binary]
      rfl
  | cons step rest =>
      obtain ⟨operator, operand⟩ := step
      -- The operator releases all unary ones and the tighter binary ones, so none of the former wait behind it.
      obtain ⟨inner, left, code⟩ := emit_term operand
        (waitingAbove floor [] (operator :: waiting.dropWhile (·.looseness < operator.looseness)))
      obtain ⟨above, behindLeft, behindCode⟩ := emit_rest rest inner
        (operator :: waiting.dropWhile (·.looseness < operator.looseness)) isFloor
      have same : ((operand.resolved table className).emit library
            (waitingAbove floor []
              (operator :: waiting.dropWhile (·.looseness < operator.looseness)))).pending =
          waitingAbove floor inner
            (operator :: waiting.dropWhile (·.looseness < operator.looseness)) := by
        rw [left]
        simp [waitingAbove]
      refine ⟨above, ?_, ?_⟩
      · rw [resolvedRest, emitRest, push_binary operator unaries waiting isFloor, same]
        exact behindLeft
      · rw [resolvedRest, emitRest, push_binary operator unaries waiting isFloor, same,
          Passage.code_append, Passage.code_append, Release.code_passage, List.map_append,
          map_instruction_unary, map_instruction_binary, List.append_assoc, behindCode]
        rw [map_instruction_unary] at code
        simp only [operandCodes, restTrees, List.map_cons, shunt, ← code, List.append_assoc]

/-- The arguments of a call, each with a stack of its own. -/
theorem code_arguments (arguments : List Expression) :
    (argumentsPassage library (resolvedArguments table className arguments)).code =
      codesBy counted library table className (argumentTrees arguments) := by
  cases arguments with
  | nil => exact Passage.code_block []
  | cons argument rest =>
      obtain ⟨above, leaves⟩ := emit_expression argument {} isFloor_nil
      rw [resolvedArguments, argumentsPassage, argumentTrees, codesBy, Passage.code_append,
        code_arguments rest, finish_leaves library leaves]

end

/-- **The code of an expression** is the post-order code of its tree. -/
theorem code_resolved (expression : Expression) :
    (expression.resolved table className).code library =
      expression.tree.codeBy counted library table className := by
  obtain ⟨above, leaves⟩ := emit_expression library table className expression {} isFloor_nil
  exact finish_leaves library leaves

/-! ## Calls that fit -/

mutual

theorem Term.codeBy_counted (term : Term) (fit : CallsFit table term.calls) :
    term.tree.codeBy counted library table className = term.tree.code library table className := by
  cases term with
  | integer | string | true_ | false_ | null | this | «variable» => rfl
  | element array index =>
      rw [Term.tree, Tree.code, Tree.codeBy, Tree.codeBy, index.codeBy_counted fit, Tree.code]
  | call callee arguments =>
      obtain ⟨here, others⟩ := List.forall_mem_cons.mp fit
      have few : (argumentTrees arguments).length + (callee.receiver table).toList.length ≤ largestCount := by
        rw [argumentTrees_eq_map, List.length_map]
        exact here
      rw [Term.tree, Tree.code, Tree.codeBy, Tree.codeBy, codesBy_counted arguments others,
        counted_of_le few]
      rfl
  | group inner => exact inner.codeBy_counted fit
  | unary operator operand =>
      rw [Term.tree, Tree.code, Tree.codeBy, Tree.codeBy, operand.codeBy_counted fit, Tree.code]

/-- **As long as its calls fit**, the code of an expression says how many operands they pass. -/
theorem Expression.codeBy_counted (expression : Expression) (fit : CallsFit table expression.calls) :
    expression.tree.codeBy counted library table className =
      expression.tree.code library table className := by
  cases expression with
  | chain first rest =>
      rw [Expression.tree, Tree.code, ← codeBy_ofChain, ← codeBy_ofChain,
        first.codeBy_counted fit.front,
        restCodes_counted rest fit.behind]
      rfl

theorem restCodes_counted (rest : List (BinaryOperator × Term)) (fit : CallsFit table (restCalls rest)) :
    (restTrees rest).map (fun step => (step.1, step.2.codeBy counted library table className)) =
      (restTrees rest).map fun step => (step.1, step.2.codeBy id library table className) := by
  cases rest with
  | nil => rfl
  | cons step rest =>
      obtain ⟨operator, operand⟩ := step
      rw [restTrees, List.map_cons, List.map_cons,
        operand.codeBy_counted fit.front,
        restCodes_counted rest fit.behind]
      rfl

theorem codesBy_counted (arguments : List Expression) (fit : CallsFit table (argumentCalls arguments)) :
    codesBy counted library table className (argumentTrees arguments) =
      codesBy id library table className (argumentTrees arguments) := by
  cases arguments with
  | nil => rfl
  | cons argument rest =>
      rw [argumentTrees, codesBy, codesBy,
        argument.codeBy_counted fit.front,
        codesBy_counted rest fit.behind]
      rfl

end

end Emission

end Written

end JackToolchain.Jack
