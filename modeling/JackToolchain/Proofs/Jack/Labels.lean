import JackToolchain.Proofs.Jack.BodyCode
import JackToolchain.Proofs.Text.Numbered
import JackToolchain.Proofs.Vm.ControlFlow
import Mathlib.Data.List.Nodup

/-!
# Labels

The jump targets in the code of statements.

## Main Definitions

* `labels` — the labels of a code, in order.
* `IsLabelOf` — the four labels that a number gives.
* `Numbered` — the labels of a code are different, and they are given by a stretch of numbers.

## Main Statements

* `labels_expression` — expressions have no labels.
* `IsLabelOf.number_unique` — different numbers give different labels.
* `numbered_statementsCode`, `numbered_subroutines` — the labels in the code of statements and subroutines
  are given by the numbers that the parser has handed out for them.

## Design Notes

A number is spelled behind a word without digits, so the digits of a label give its number back.
-/

namespace JackToolchain.Jack

open Vm

/-- The labels of a code, in order. -/
def labels (code : List Instruction) : List String :=
  code.filterMap fun
    | .label name => some name
    | _ => none

@[simp] theorem labels_nil : labels [] = [] := rfl

@[simp] theorem labels_append (front behind : List Instruction) :
    labels (front ++ behind) = labels front ++ labels behind :=
  List.filterMap_append

@[simp] theorem labels_label (name : String) (rest : List Instruction) :
    labels (.label name :: rest) = name :: labels rest := rfl

@[simp] theorem labels_operate (operation : Operation) (rest : List Instruction) :
    labels (.operate operation :: rest) = labels rest := rfl

@[simp] theorem labels_goto (name : String) (rest : List Instruction) :
    labels (.goto name :: rest) = labels rest := rfl

@[simp] theorem labels_ifGoto (name : String) (rest : List Instruction) :
    labels (.ifGoto name :: rest) = labels rest := rfl

theorem mem_labels_iff {code : List Instruction} {name : String} :
    name ∈ labels code ↔ .label name ∈ code := by
  unfold labels
  rw [List.mem_filterMap]
  constructor
  · rintro ⟨instruction, member, same⟩
    cases instruction <;> simp_all
  · intro member
    exact ⟨_, member, rfl⟩

theorem count_label (code : List Instruction) (name : String) :
    code.count (.label name) = (labels code).count name := by
  induction code with
  | nil => rfl
  | cons instruction rest ih =>
      rw [List.count_cons, ih]
      cases instruction with
      | label other =>
          rw [labels_label, List.count_cons]
          congr 1
          by_cases same : other = name
          · rw [same, BEq.rfl, BEq.rfl]
          · rw [if_neg (by simpa using same), if_neg (by simpa using same)]
      | push | pop | operate | goto | ifGoto | function | call | return_ => rfl

/-- Straight code has no labels. -/
theorem labels_of_straight {code : List Instruction} (straight : Straight code) : labels code = [] := by
  refine List.eq_nil_iff_forall_not_mem.mpr fun name member => ?_
  exact Bool.noConfusion (straight _ (mem_labels_iff.mp member))

/-! ## Numbers in labels -/

/-- The labels that a number gives. -/
def IsLabelOf (number : Nat) (name : String) : Prop :=
  name = trueLabel number ∨ name = falseLabel number ∨ name = topLabel number ∨
    name = exitLabel number

/-- The digits of a label are those of its number. -/
theorem IsLabelOf.digits {number : Nat} {name : String} (isLabel : IsLabelOf number name) :
    name.toList.filter (·.isDigit) = Nat.toDigits 10 number := by
  rcases isLabel with rfl | rfl | rfl | rfl
  · exact Text.filter_isDigit_numbered "IF_TRUE" number (by decide)
  · exact Text.filter_isDigit_numbered "IF_FALSE" number (by decide)
  · exact Text.filter_isDigit_numbered "WHILE_EXP" number (by decide)
  · exact Text.filter_isDigit_numbered "WHILE_END" number (by decide)

/-- **Different numbers give different labels.** -/
theorem IsLabelOf.number_unique {number other : Nat} {name : String}
    (first : IsLabelOf number name) (second : IsLabelOf other name) : number = other :=
  Text.toDigits_inj (first.digits.symm.trans second.digits)

theorem trueLabel_ne_falseLabel (number : Nat) : trueLabel number ≠ falseLabel number :=
  Text.numbered_ne "IF_TRUE" "IF_FALSE" number number (by decide) (by decide) (by decide)

theorem topLabel_ne_exitLabel (number : Nat) : topLabel number ≠ exitLabel number :=
  Text.numbered_ne "WHILE_EXP" "WHILE_END" number number (by decide) (by decide) (by decide)

/-! ## Numbered code -/

/-- The labels of a code are different, and they are given by numbers from `first` up to, but not including,
`next`. -/
structure Numbered (first next : Nat) (code : List Instruction) : Prop where
  ordered : first ≤ next
  nodup : (labels code).Nodup
  given : ∀ name ∈ labels code, ∃ number, first ≤ number ∧ number < next ∧ IsLabelOf number name

namespace Numbered

variable {first between next : Nat} {code front behind : List Instruction}

theorem unlabeled (none : labels code = []) : Numbered first first code where
  ordered := Nat.le_refl first
  nodup := by
    rw [none]
    exact List.nodup_nil
  given name member := by
    rw [none] at member
    exact absurd member List.not_mem_nil

/-- Only labels matter. -/
theorem of_labels (numbered : Numbered first next code) (same : labels behind = labels code) :
    Numbered first next behind where
  ordered := numbered.ordered
  nodup := same ▸ numbered.nodup
  given := same ▸ numbered.given

theorem append (one : Numbered first between front) (two : Numbered between next behind) :
    Numbered first next (front ++ behind) where
  ordered := one.ordered.trans two.ordered
  nodup := by
    rw [labels_append, List.nodup_append]
    refine ⟨one.nodup, two.nodup, ?_⟩
    rintro name inFront _ inBehind rfl
    obtain ⟨number, -, less, isLabel⟩ := one.given name inFront
    obtain ⟨other, more, -, isLabel'⟩ := two.given name inBehind
    have same := isLabel.number_unique isLabel'
    omega
  given name member := by
    have ordered := one.ordered
    have ordered' := two.ordered
    rw [labels_append, List.mem_append] at member
    rcases member with inFront | inBehind
    · obtain ⟨number, more, less, isLabel⟩ := one.given name inFront
      exact ⟨number, more, by omega, isLabel⟩
    · obtain ⟨number, more, less, isLabel⟩ := two.given name inBehind
      exact ⟨number, by omega, less, isLabel⟩

/-- A number that stands in front of all others gives two more labels. -/
theorem own {one two : String} (inner : Numbered (first + 1) next code) (isLabel : IsLabelOf first one)
    (isLabel' : IsLabelOf first two) (different : one ≠ two)
    (perm : (labels behind).Perm (one :: two :: labels code)) : Numbered first next behind where
  ordered := Nat.le_of_succ_le inner.ordered
  nodup := by
    have fresh (name : String) (given : IsLabelOf first name) : name ∉ labels code := by
      intro member
      obtain ⟨number, more, -, isLabel⟩ := inner.given name member
      have same := given.number_unique isLabel
      omega
    rw [perm.nodup_iff, List.nodup_cons, List.nodup_cons, List.mem_cons, not_or]
    exact ⟨⟨different, fresh one isLabel⟩, fresh two isLabel', inner.nodup⟩
  given name member := by
    have ordered := inner.ordered
    rcases List.mem_cons.mp (perm.mem_iff.mp member) with rfl | member
    · exact ⟨first, Nat.le_refl first, ordered, isLabel⟩
    rcases List.mem_cons.mp member with rfl | member
    · exact ⟨first, Nat.le_refl first, ordered, isLabel'⟩
    · obtain ⟨number, more, less, isLabel⟩ := inner.given name member
      exact ⟨number, Nat.le_of_succ_le more, less, isLabel⟩

/-- A label stands only once in numbered code. -/
theorem count_le_one (numbered : Numbered first next code) (name : String) :
    code.count (.label name) ≤ 1 := by
  rw [count_label]
  exact List.nodup_iff_count_le_one.mp numbered.nodup name

end Numbered

namespace Written

/-! ## Labels of statements -/

theorem statementsCode_cons (library : Library) (statement : Jack.Statement)
    (rest : List Jack.Statement) :
    statementsCode library (statement :: rest) =
      statement.code library ++ statementsCode library rest := by
  rw [statementsCode_eq_flatMap, List.flatMap_cons, ← statementsCode_eq_flatMap]

section Statements

variable (library : Library) (table : Symbol.Table) (className : String)

theorem labels_expression (expression : Expression) :
    labels ((expression.resolved table className).code library) = [] :=
  labels_of_straight (straight_expression library table className expression)

theorem labels_branch (number : Nat) (condition : Expression)
    (whenTrue whenFalse : List Jack.Statement) :
    labels ((Jack.Statement.branch number (condition.resolved table className) whenTrue
      whenFalse).code library) =
      labels (statementsCode library whenTrue) ++
        trueLabel number :: (labels (statementsCode library whenFalse) ++ [falseLabel number]) := by
  simp [Jack.Statement.code_branch, labels_expression]

theorem labels_loop (number : Nat) (condition : Expression) (body : List Jack.Statement) :
    labels ((Jack.Statement.loop number (condition.resolved table className) body).code library) =
      topLabel number :: (labels (statementsCode library body) ++ [exitLabel number]) := by
  simp [Jack.Statement.code_loop, labels_expression]

mutual

/-- The labels in the code of a statement are different, and its numbers give them. -/
theorem Statement.numbered_code (statement : Statement) (first : Nat) :
    Numbered first (first + statement.branchings)
      ((statement.resolved table className first).code library) := by
  cases statement with
  | assign target value =>
      exact .unlabeled (labels_of_straight (straight_assign library table className _ value))
  | assignElement array index value =>
      exact .unlabeled (labels_of_straight (straight_assignElement library table className _ index value))
  | branch condition body =>
      have inner := numbered_statementsCode body (first + 1)
      rw [Nat.add_assoc] at inner
      refine inner.own (.inl rfl) (.inr (.inl rfl)) (trueLabel_ne_falseLabel first) ?_
      rw [Statement.resolved, labels_branch]
      exact List.perm_append_comm
  | choice condition whenTrue whenFalse =>
      have inner := (numbered_statementsCode whenTrue (first + 1)).append
        (numbered_statementsCode whenFalse _)
      rw [Nat.add_assoc, Nat.add_assoc] at inner
      refine inner.own (.inl rfl) (.inr (.inl rfl)) (trueLabel_ne_falseLabel first) ?_
      rw [Statement.resolved, labels_branch, labels_append]
      -- One label stands between the bodies and the other one behind them.
      refine List.perm_middle.trans (.cons _ ?_)
      rw [← List.append_assoc]
      exact List.perm_append_comm
  | loop condition body =>
      have inner := numbered_statementsCode body (first + 1)
      rw [Nat.add_assoc] at inner
      refine inner.own (.inr (.inr (.inl rfl))) (.inr (.inr (.inr rfl))) (topLabel_ne_exitLabel first) ?_
      rw [Statement.resolved, labels_loop]
      exact .cons _ List.perm_append_comm
  | run callee arguments =>
      exact .unlabeled (labels_of_straight (straight_run library table className callee arguments))
  | leave value =>
      refine .unlabeled ?_
      cases value with
      | none =>
          rw [Statement.resolved, Option.map_none, Jack.Statement.code_leave_none]
          rfl
      | some value =>
          rw [Statement.resolved, Option.map_some, Jack.Statement.code_leave_some, labels_append,
            labels_expression]
          rfl

/-- **The labels in the code of statements** are different, and their numbers give them. -/
theorem numbered_statementsCode (statements : List Statement) (first : Nat) :
    Numbered first (first + branchingsOf statements)
      (statementsCode library (resolvedStatements table className first statements)) := by
  cases statements with
  | nil => exact .unlabeled rfl
  | cons statement rest =>
      rw [resolvedStatements, statementsCode_cons, branchingsOf, ← Nat.add_assoc]
      exact (statement.numbered_code first).append (numbered_statementsCode rest _)

end

end Statements

/-! ## Labels of classes -/

/-- The code in front of and behind the statements of a body has no labels. -/
theorem labels_bodyCode (library : Library) (fields : Nat) (subroutine : Jack.Subroutine) :
    labels (bodyCode library fields subroutine) =
      labels (statementsCode library subroutine.body) := by
  have prologue : labels (subroutine.prologue library fields) = [] := by
    unfold Jack.Subroutine.prologue
    cases subroutine.kind <;> rfl
  have epilogue : labels subroutine.epilogue = [] := by
    unfold Jack.Subroutine.epilogue
    cases subroutine.kind with
    | constructor_ => rfl
    | function | method =>
        dsimp only
        split <;> rfl
  rw [bodyCode, labels_append, labels_append, prologue, epilogue, List.nil_append, List.append_nil]

/-- The labels of a subroutine are those of its statements. -/
theorem labels_code (library : Library) (className : String) (fields : Nat)
    (subroutine : Jack.Subroutine) :
    labels (subroutine.code library className fields) =
      labels (statementsCode library subroutine.body) := by
  rw [code_eq_bodyCode]
  exact labels_bodyCode library fields subroutine

/-- **The labels of subroutines** are different, and their numbers give them. -/
theorem numbered_subroutines (library : Library) (className : String) (ofClass : Symbol.Table)
    (fields first : Nat) (written : List Subroutine) :
    Numbered first (first + branchingsWithin written)
      ((resolvedSubroutines className ofClass first written).flatMap
        (·.code library className fields)) := by
  induction written generalizing first with
  | nil => exact .unlabeled rfl
  | cons subroutine rest ih =>
      have statements := numbered_statementsCode library (subroutine.table className ofClass) className
        subroutine.body first
      have here := statements.of_labels
        (labels_code library className fields (subroutine.resolved className ofClass first))
      rw [branchingsWithin, ← Nat.add_assoc]
      exact here.append (ih _)

end Written

end JackToolchain.Jack
