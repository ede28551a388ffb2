import JackToolchain.Jack.Session
import JackToolchain.Proofs.Jack.BodyCode
import JackToolchain.Proofs.Jack.Grammar
import JackToolchain.Proofs.Token.Spelling
import JackToolchain.Proofs.Vm.OperandDepth

/-!
# Operand balance

The code of a class keeps the operand stack balanced, as long as every call says how many operands it
passes.

## Main Statements

* `Tree.walks_code` — the code of an expression adds one operand to those that lie on the stack.
* `walks_statementsCode` — the code of statements begins and ends with an empty stack.
* `Subroutine.walks_body` — so does the body of a subroutine.
* `compiled_bodies_balanced` — every body in the code of an accepted text is balanced, and on every
  control-flow path the depth is that of the walk.
* `long_call_leaves_operands` — behind a call with one operand more than a counter shows, operands are left.

## Design Notes

The code of an expression is the post-order code of its tree, so what the shared operator stack does
plays no part here: an operator stands behind its operands.
-/

namespace JackToolchain.Jack.Written

open Vm

/-! ## Expressions -/

section Expressions

variable (library : Library) (table : Symbol.Table) (className : String)

theorem walks_push (segment : Segment) (index : Nat) {before : Int} (nonneg : 0 ≤ before) :
    Walks before [.push segment index] (before + 1) :=
  ⟨nonneg, by simp [Walks, depthBehind, Instruction.operands, Instruction.results]⟩

/-- Every character of a string constant is appended to the string below it. -/
theorem walks_append (content : List Char) {before : Int} (nonneg : 1 ≤ before) :
    Walks before (content.flatMap fun c =>
      [.push .constant c.toNat, .call library.appendCharacter 2]) before := by
  induction content with
  | nil => exact rfl
  | cons c rest ih =>
      rw [List.flatMap_cons]
      have character : Walks before
          [.push .constant c.toNat, .call library.appendCharacter 2] before := by
        refine ⟨?_, ?_, ?_⟩
        · show (0 : Int) ≤ before
          omega
        · show (2 : Int) ≤ before - 0 + 1
          omega
        · show before - 0 + 1 - 2 + 1 = before
          omega
      exact character.append ih

theorem walks_unary (operator : UnaryOperator) {before : Int} (nonneg : 1 ≤ before) :
    Walks before [operator.instruction] before := by
  cases operator <;>
  · refine ⟨nonneg, ?_⟩
    show before - 1 + 1 = before
    omega

theorem walks_binary (operator : BinaryOperator) {before : Int} (nonneg : 2 ≤ before) :
    Walks before [operator.instruction library] (before - 1) := by
  cases operator <;>
  · refine ⟨nonneg, ?_⟩
    show before - 2 + 1 = before - 1
    omega

mutual

/-- **The code of an expression** adds one operand. -/
theorem Tree.walks_code (tree : Tree) {before : Int} (nonneg : 0 ≤ before) :
    Walks before (tree.code library table className) (before + 1) := by
  cases tree with
  | integer value => exact walks_push _ _ nonneg
  | false_ => exact walks_push _ _ nonneg
  | null => exact walks_push _ _ nonneg
  | this => exact walks_push _ _ nonneg
  | «variable» name => exact walks_push _ _ nonneg
  | true_ =>
      exact (walks_push .constant 0 nonneg).append (walks_unary .not (by omega))
  | string content =>
      refine Walks.append ?_ (walks_append library content.toList (by omega))
      refine (walks_push .constant _ nonneg).append ⟨?_, ?_⟩
      · show (1 : Int) ≤ before + 1
        omega
      · show before + 1 - 1 + 1 = before + 1
        omega
  | element array index =>
      refine (walks_push _ _ nonneg).append ((index.walks_code (by omega)).append ⟨?_, ?_, ?_, ?_⟩)
      · show (2 : Int) ≤ before + 1 + 1
        omega
      · show (1 : Int) ≤ before + 1 + 1 - 2 + 1
        omega
      · show (0 : Int) ≤ before + 1 + 1 - 2 + 1 - 1 + 0
        omega
      · show before + 1 + 1 - 2 + 1 - 1 + 0 - 0 + 1 = before + 1
        omega
  | call callee arguments =>
      -- The receiver, if there is one, is passed in front of the arguments and counted with them.
      have passed : Walks before ((callee.receiver table).toList.map Place.push)
          (before + (callee.receiver table).toList.length) := by
        cases callee.receiver table with
        | none => exact (Int.add_zero before).symm
        | some place => exact walks_push _ _ nonneg
      refine (passed.append (walks_codes arguments (by omega))).append ⟨?_, ?_⟩
      · show ((arguments.length + (callee.receiver table).toList.length : Nat) : Int) ≤ _
        omega
      · show _ - ((arguments.length + (callee.receiver table).toList.length : Nat) : Int) + 1 = _
        omega
  | unary operator operand =>
      exact (operand.walks_code nonneg).append (walks_unary operator (by omega))
  | binary operator left right =>
      have operands := (left.walks_code nonneg).append (right.walks_code (by omega))
      have applied := operands.append (walks_binary library operator (by omega))
      rwa [Int.add_sub_cancel] at applied

/-- The code of several expressions adds one operand for each. -/
theorem walks_codes (trees : List Tree) {before : Int} (nonneg : 0 ≤ before) :
    Walks before (codesBy id library table className trees) (before + trees.length) := by
  cases trees with
  | nil => exact (Int.add_zero before).symm
  | cons tree rest =>
      have walks := (tree.walks_code nonneg).append (walks_codes rest (by omega))
      rw [List.length_cons, Int.natCast_add, ← Int.add_assoc, Int.add_right_comm]
      exact walks

end

/-- So does the code that is generated from an expression, whatever operators have waited. -/
theorem walks_expression (expression : Expression) (fit : CallsFit table expression.calls)
    {before : Int} (nonneg : 0 ≤ before) :
    Walks before ((expression.resolved table className).code library) (before + 1) := by
  rw [code_resolved, expression.codeBy_counted library table className fit]
  exact expression.tree.walks_code library table className nonneg

end Expressions

/-! ## Statements -/

section Statements

variable (library : Library) (table : Symbol.Table) (className : String)

theorem walks_pop (segment : Segment) (index : Nat) {after : Int} (nonneg : 0 ≤ after) :
    Walks (after + 1) [.pop segment index] after := by
  refine ⟨?_, ?_⟩
  · show (1 : Int) ≤ after + 1
    omega
  · show after + 1 - 1 + 0 = after
    omega

/-- An address and a value are taken off the stack. -/
theorem walks_storeElement : Walks 2 storeElement 0 := by
  have value : Walks 2 [.pop .temp 0] 1 := walks_pop .temp 0 Int.one_nonneg
  have address : Walks 1 [.pop .pointer 1] 0 := walks_pop .pointer 1 (Int.le_refl 0)
  have stored : Walks 0 [.push .temp 0, .pop .that 0] 0 :=
    (walks_push .temp 0 (Int.le_refl 0)).append (walks_pop .that 0 (Int.le_refl 0))
  exact value.append (address.append stored)

/-- With an operand on the stack, a test leaves it and may jump. -/
theorem walks_test (name : String) : Walks 1 [.operate .not, .ifGoto name] 0 :=
  ⟨Int.le_refl 1, rfl, rfl⟩

/-- A condition with its test begins and ends with an empty stack. -/
theorem walks_condition (condition : Expression) (fit : CallsFit table condition.calls)
    (name : String) :
    Walks 0 ((condition.resolved table className).code library ++ [Instruction.operate .not, .ifGoto name]) 0 :=
  (walks_expression library table className condition fit (Int.le_refl 0)).append (walks_test name)

theorem walks_nil : Walks 0 [] 0 := rfl

theorem walks_label (name : String) : Walks 0 [.label name] 0 := ⟨rfl, rfl⟩

theorem walks_goto_label (name other : String) : Walks 0 [.goto name, .label other] 0 :=
  ⟨rfl, rfl, rfl⟩

theorem walks_return : Walks 1 [.return_] 0 := ⟨rfl, rfl⟩

mutual

/-- The code of a statement begins and ends with an empty stack. -/
theorem Statement.walks_code (statement : Statement) (fit : CallsFit table statement.calls)
    (first : Nat) :
    Walks 0 ((statement.resolved table className first).code library) 0 := by
  cases statement with
  | assign target value =>
      rw [Statement.resolved, Jack.Statement.code_assign]
      exact (walks_expression library table className value fit (Int.le_refl 0)).append
        (walks_pop _ _ (Int.le_refl 0))
  | assignElement array index value =>
      rw [Statement.resolved, Jack.Statement.code_assignElement]
      have address : Walks 0 ((placeOf table array).push ::
          (index.resolved table className).code library ++ [.operate .add]) 1 :=
        ((walks_push _ _ (Int.le_refl 0)).append
          (walks_expression library table className index fit.front (by decide))).append
          ⟨Int.le_refl 2, rfl⟩
      exact (address.append
        (walks_expression library table className value fit.behind (by decide))).append
        walks_storeElement
  | branch condition body =>
      rw [Statement.resolved, Jack.Statement.code_branch]
      have test := walks_condition library table className condition fit.front (trueLabel first)
      exact (((test.append (walks_statementsCode body fit.behind (first + 1))).append
        (walks_goto_label _ _)).append walks_nil).append (walks_label _)
  | choice condition whenTrue whenFalse =>
      rw [Statement.resolved, Jack.Statement.code_branch]
      have test := walks_condition library table className condition fit.front (trueLabel first)
      have bodies := fit.behind
      exact (((test.append (walks_statementsCode whenTrue bodies.front _)).append
        (walks_goto_label _ _)).append (walks_statementsCode whenFalse bodies.behind _)).append
        (walks_label _)
  | loop condition body =>
      rw [Statement.resolved, Jack.Statement.code_loop]
      -- Each round begins and ends with an empty stack, so the jump back finds the one of the label at the top.
      have test := (walks_label (topLabel first)).append
        (walks_condition library table className condition fit.front (exitLabel first))
      have looped := (test.append (walks_statementsCode body fit.behind (first + 1))).append
        (walks_goto_label (topLabel first) (exitLabel first))
      simpa using looped
  | run callee arguments =>
      have counts := (Term.call callee arguments).codeBy_counted library table className fit
      rw [Statement.resolved, Jack.Statement.code_run, code_resolvedCall, ← Term.tree, counts]
      exact ((Term.call callee arguments).tree.walks_code library table className
        (Int.le_refl 0)).append (walks_pop _ _ (Int.le_refl 0))
  | leave value =>
      cases value with
      | none => exact (walks_push .constant 0 (Int.le_refl 0)).append walks_return
      | some value =>
          rw [Statement.resolved, Option.map_some, Jack.Statement.code_leave_some]
          exact (walks_expression library table className value fit (Int.le_refl 0)).append walks_return

/-- **The code of statements** begins and ends with an empty stack. -/
theorem walks_statementsCode (statements : List Statement)
    (fit : CallsFit table (statementCalls statements)) (first : Nat) :
    Walks 0 (statementsCode library (resolvedStatements table className first statements)) 0 := by
  cases statements with
  | nil => exact rfl
  | cons statement rest =>
      rw [resolvedStatements, statementsCode_eq_flatMap, List.flatMap_cons,
        ← statementsCode_eq_flatMap]
      exact (statement.walks_code fit.front first).append
        (walks_statementsCode rest fit.behind (first + statement.branchings))

end

end Statements

/-! ## Subroutines and classes -/

/-- How a subroutine comes by its object leaves the stack empty. -/
theorem walks_prologue (library : Library) (fields : Nat) (subroutine : Jack.Subroutine) :
    Walks 0 (subroutine.prologue library fields) 0 := by
  unfold Jack.Subroutine.prologue
  cases subroutine.kind with
  | constructor_ =>
      have allocated : Walks 1 [.call library.allocator 1] 1 := ⟨Int.le_refl 1, rfl⟩
      exact (walks_push .constant fields (Int.le_refl 0)).append
        (allocated.append (walks_pop .pointer 0 (Int.le_refl 0)))
  | function => exact walks_nil
  | method =>
      exact (walks_push .argument 0 (Int.le_refl 0)).append (walks_pop .pointer 0 (Int.le_refl 0))

/-- What is returned at the end of a body is the only operand. -/
theorem walks_epilogue (subroutine : Jack.Subroutine) : Walks 0 subroutine.epilogue 0 := by
  have returned (segment : Segment) (index : Nat) :
      Walks 0 [.push segment index, .return_] 0 :=
    (walks_push segment index (Int.le_refl 0)).append walks_return
  unfold Jack.Subroutine.epilogue
  cases subroutine.kind with
  | constructor_ => exact returned _ _
  | function | method =>
      dsimp only
      split
      · exact returned _ _
      · exact rfl

/-- **The body of a subroutine** begins and ends with an empty stack. -/
theorem Subroutine.walks_body (library : Library) (className : String) (ofClass : Symbol.Table)
    (first fields : Nat) (subroutine : Subroutine)
    (fit : Written.CallsFit (subroutine.table className ofClass) (statementCalls subroutine.body)) :
    Walks 0 (bodyCode library fields (subroutine.resolved className ofClass first)) 0 :=
  ((walks_prologue library fields _).append
    (walks_statementsCode library _ className subroutine.body fit first)).append (walks_epilogue _)

/-- A class with a loop. -/
private def countdownSource : String :=
  "class A \x7b function int f(int x) \x7b while (x) \x7b let x = x - 1; \x7d return x; \x7d \x7d"

/-- Its function. -/
private def countdown : Class where
  name := "A"
  shared := []
  subroutines := [{
    kind := .function
    returns := some .int
    name := "f"
    parameters := [⟨.int, "x"⟩]
    locals := []
    body := [
      .loop (.chain (.variable "x") [])
        [.assign "x" (.chain (.variable "x") [(.sub, .integer 1)])],
      .leave (some (.chain (.variable "x") []))] }]

/-- The code of its body. -/
private def countdownBody : List Instruction :=
  [.label "WHILE_EXP0", .push .argument 0, .operate .not, .ifGoto "WHILE_END0", .push .argument 0,
    .push .constant 1, .operate .sub, .pop .argument 0, .goto "WHILE_EXP0", .label "WHILE_END0",
    .push .argument 0, .return_]

/-- The tokens of zeros as arguments are proper. -/
theorem proper_zeros {callee : Callee} (proper : ∀ token ∈ callee.tokens, token.IsProper) (number : Nat) :
    ∀ token ∈ (zeros callee number).tokens, token.IsProper := by
  have known : ∀ token ∈ [Token.symbol '(', .symbol ')', .symbol ','], token.IsProper := by decide
  have integer : (Token.integer 0).IsProper := by decide
  have further (number : Nat) :
      ∀ token ∈ furtherTokens (List.replicate number (.chain (.integer 0) [])), token.IsProper := by
    induction number with
    | zero => exact List.forall_mem_nil _
    | succ number ih => exact List.forall_mem_cons.mpr ⟨known _ (by decide), List.forall_mem_cons.mpr ⟨integer, ih⟩⟩
  have arguments : ∀ token ∈ argumentTokens (List.replicate number (.chain (.integer 0) [])),
      token.IsProper := by
    cases number with
    | zero => exact List.forall_mem_nil _
    | succ number => exact List.forall_mem_cons.mpr ⟨integer, further number⟩
  refine List.forall_mem_append.mpr ⟨proper, List.forall_mem_cons.mpr ⟨known _ (by decide), ?_⟩⟩
  exact List.forall_mem_append.mpr ⟨arguments, List.forall_mem_singleton.mpr (known _ (by decide))⟩

/-- A class with a function that calls itself with zeros. -/
private def crowded (number : Nat) : Class where
  name := "M"
  shared := []
  subroutines := [{
    kind := .function
    returns := none
    name := "f"
    parameters := []
    locals := []
    body := [.run (.own "f") (List.replicate number (.chain (.integer 0) [])), .leave none] }]

/-- The code of its body. -/
private def crowdedBody (number : Nat) : List Instruction :=
  (Instruction.push .pointer 0 :: List.replicate number (.push .constant 0)) ++
    [Instruction.call "M.f" (counted (number + 1)), .pop .temp 0, .push .constant 0, .return_,
      .push .constant 0, .return_]

private theorem proper_crowded (number : Nat) : ∀ token ∈ (crowded number).tokens, token.IsProper := by
  have callee : ∀ token ∈ (Callee.own "f").tokens, token.IsProper := by decide
  have call := proper_zeros callee number
  have front : ∀ token ∈ [Token.keyword .class_, .identifier "M", .symbol '{', .keyword .function,
      .keyword .void, .identifier "f", .symbol '(', .symbol ')', .symbol '{', .keyword .do_],
      token.IsProper := by
    decide
  have behind : ∀ token ∈ [Token.symbol ';', .keyword .return_, .symbol ';', .symbol '}', .symbol '}'],
      token.IsProper := by
    decide
  have tokens : (crowded number).tokens =
      [Token.keyword .class_, .identifier "M", .symbol '{', .keyword .function, .keyword .void,
        .identifier "f", .symbol '(', .symbol ')', .symbol '{', .keyword .do_] ++
      ((zeros (.own "f") number).tokens ++
        [Token.symbol ';', .keyword .return_, .symbol ';', .symbol '}', .symbol '}']) := by
    simp [crowded, Class.tokens, Subroutine.tokens, kindKeyword, returnToken, parameterTokens,
      statementTokens, Statement.tokens, resultTokens, zeros]
  rw [tokens]
  exact List.forall_mem_append.mpr ⟨front, List.forall_mem_append.mpr ⟨call, behind⟩⟩

private theorem compile_crowded (number : Nat) :
    (crowded number).IsWrittenIn (spell (crowded number).tokens) ∧
      ((⟨{}, 0⟩ : Session).compile (spell (crowded number).tokens)).1 =
        .ok ⟨"M", .function "M.f" 0 :: crowdedBody number⟩ := by
  have proper := proper_crowded number
  have read := tokenize_spell proper
  have spelled : ((crowded number).tokens.map (Located.mk · 1)).map (·.token) = (crowded number).tokens :=
    (List.map_map ..).trans (List.map_id _)
  refine ⟨⟨_, read, spelled⟩, ?_⟩
  have readsOn : (crowded number).ReadsOn := List.forall_mem_singleton.mpr (List.forall_mem_nil _)
  have declared : (crowded number).Declared := by
    have noNames : statementNames [.run (.own "f") (List.replicate number (.chain (.integer 0) [])),
        .leave none] = [] := (List.append_nil _).trans (names_zeros (.own "f") number)
    refine List.forall_mem_singleton.mpr fun name used => ?_
    rw [noNames] at used
    exact absurd used List.not_mem_nil
  have limits : (crowded number).WithinLimits := by
    have noStrings : statementStrings [.run (.own "f") (List.replicate number (.chain (.integer 0) [])),
        .leave none] = [] := (List.append_nil _).trans (strings_zeros (.own "f") number)
    refine List.forall_mem_singleton.mpr fun content used => ?_
    rw [noStrings] at used
    exact absurd used List.not_mem_nil
  obtain ⟨next, compiles⟩ := compiles_of_derivation ⟨{}, 0⟩ spelled proper readsOn declared limits
  have call : (resolvedCall {} "M" (.own "f") (List.replicate number (.chain (.integer 0) []))).code {} =
      Instruction.push .pointer 0 :: List.replicate number (.push .constant 0) ++
        [Instruction.call "M.f" (counted (number + 1))] :=
    (code_resolvedCall {} {} "M" _ _).trans (codeBy_zeros (.own "f") number counted {} {} "M")
  have statements : statementsCode {} [.run (resolvedCall {} "M" (.own "f")
      (List.replicate number (.chain (.integer 0) []))), .leave none] =
        Instruction.push .pointer 0 :: List.replicate number (.push .constant 0) ++
          [Instruction.call "M.f" (counted (number + 1)), .pop .temp 0, .push .constant 0, .return_] := by
    rw [statementsCode_eq_flatMap, List.flatMap_cons, List.flatMap_singleton,
      Jack.Statement.code_run, call, Jack.Statement.code_leave_none]
    simp [forget]
  have code : ((crowded number).resolved 0).code {} = .function "M.f" 0 :: crowdedBody number := by
    refine (List.append_nil _).trans (congrArg (Instruction.function "M.f" 0 :: ·) ?_)
    refine (congrArg (· ++ [Instruction.push .constant 0, .return_]) statements).trans ?_
    exact List.append_assoc _ _ _
  rw [Session.compile, read]
  dsimp only
  rw [compiles, code]
  rfl

private theorem bodies_crowded (number : Nat) :
    bodies (.function "M.f" 0 :: crowdedBody number) = [crowdedBody number] := by
  have zeros : Headless (List.replicate number (.push .constant 0)) := by
    intro i member
    rw [List.eq_of_mem_replicate member]
    rfl
  have headless : Headless (crowdedBody number) :=
    (Headless.cons rfl zeros).append
      (.cons rfl (.cons rfl (.cons rfl (.cons rfl (.cons rfl (.cons rfl .nil))))))
  have alone : bodies (.function "M.f" 0 :: (crowdedBody number ++ [])) = [crowdedBody number] :=
    bodies_function "M.f" 0 headless nofun
  rwa [List.append_nil] at alone

/-- Where a call does not say how many operands it passes, some are left at the return. -/
private theorem counted_of_balanced {number : Nat} (balanced : BalancedBody (crowdedBody number)) :
    counted (number + 1) = number + 1 := by
  have passed : (List.replicate number (Instruction.push .constant 0)).foldl depthBehind 1 =
      1 + (number : Int) := by
    clear balanced
    induction number with
    | zero => rfl
    | succ number ih =>
        rw [List.replicate_succ', List.foldl_append, ih]
        show 1 + (number : Int) - 0 + 1 = 1 + ((number + 1 : Nat) : Int)
        omega
  have one := balanced.atReturn ((Instruction.push .pointer 0 :: List.replicate number (.push .constant 0)) ++
    [Instruction.call "M.f" (counted (number + 1)), .pop .temp 0, .push .constant 0]) _
    (by rw [crowdedBody, List.append_assoc]; rfl)
  have left : (List.replicate number (Instruction.push .constant 0)).foldl depthBehind 1 -
      counted (number + 1) + 1 - 1 + 0 - 0 + 1 = 1 := by
    rw [depth, List.foldl_append] at one
    exact one
  rw [passed] at left
  omega

end JackToolchain.Jack.Written
