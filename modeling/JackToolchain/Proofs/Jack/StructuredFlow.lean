import JackToolchain.Proofs.Jack.Labels
import JackToolchain.Proofs.Jack.OperandBalance

/-!
# Structured control flow

Statements are executed as their structure says, although their code jumps.

## Main Definitions

* `Evaluation` — what statements do one after the other: assignments, calls, tests of conditions and
  results to return.
* `execute` — the execution of statements by their structure, up to a bound on its depth.
* `Realizes` — a run of the machine performs the evaluations of an execution and ends where it ends.

## Main Statements

* `execute_succ` — a higher bound changes nothing once an execution has come to its end.
* `realizes_test`, `realizes_branch`, `realizes_loop` — one construct in terms of its parts.
* `implements_resolved` — from the first instruction of the code of statements, the machine realizes their
  execution.
* `statements_flow_preserved` — the same for what the parser of statements accepts, in any surroundings
  that do not use the same labels; and no run performs anything else.

## Design Notes

An execution that does not end has no result, but every bound on its depth gives a beginning of it, and
the bound is a lower bound on the steps of the machine; so the statements below speak about endless loops,
too.  A condition may have any value: what is not `-1` counts as false, in the structure and in the
code.

A call with more arguments than a counter shows leaves some of them on the stack.  They lie below whatever
is computed later, and control does not depend on them.
-/

namespace JackToolchain.Jack

open Vm
open Hack (Word)

/-! ## Execution by structure -/

/-- What is evaluated at one time. -/
inductive Evaluation where
  | assign (target : Place) (value : Expression)
  | assignElement (array : Place) (index value : Expression)
  | run (call : Call)
  /-- The condition of a branch or a loop. -/
  | test (condition : Expression)
  /-- The result of a subroutine; zero if it is not given. -/
  | result (value : Option Expression)

namespace Evaluation

variable (library : Library)

/-- The code that evaluates. -/
def code : Evaluation → List Instruction
  | .assign target value => (Statement.assign target value).code library
  | .assignElement array index value => (Statement.assignElement array index value).code library
  | .run call => (Statement.run call).code library
  | .test condition => condition.code library
  | .result none => [.push .constant 0]
  | .result (some value) => value.code library

/-- What is performed for an evaluation.  The value of a condition is negated before the jump. -/
def performed : Evaluation → List Instruction
  | .test condition => condition.code library ++ [.operate .not]
  | evaluation => evaluation.code library

end Evaluation

/-- How an execution ends. -/
inductive Outcome (ω : Type) where
  /-- Behind the last statement. -/
  | ended (memory : ω)
  /-- By a return, with a result. -/
  | left (result : List Word) (memory : ω)
  /-- In an evaluation that does not come to an end. -/
  | stuck (evaluation : Evaluation)
  /-- Not at all, but it is followed no further. -/
  | cut (memory : ω)

/-- The evaluations of an execution in order, and how it ends. -/
structure Execution (ω : Type) where
  evaluations : List Evaluation
  outcome : Outcome ω

/-- One execution behind another, if the first one ends behind its last statement. -/
def Execution.andThen {ω : Type} (first : Execution ω) (next : ω → Execution ω) : Execution ω :=
  match first.outcome with
  | .ended memory => ⟨first.evaluations ++ (next memory).evaluations, (next memory).outcome⟩
  | _ => first

/-- An execution that is followed to its end. -/
def Execution.IsSettled {ω : Type} (execution : Execution ω) : Prop :=
  ∀ memory, execution.outcome ≠ .cut memory

theorem andThen_congr {ω : Type} {first first' : Execution ω} {next next' : ω → Execution ω}
    (agree : first.IsSettled → first' = first)
    (agreeNext : ∀ memory, (next memory).IsSettled → next' memory = next memory)
    (settled : (first.andThen next).IsSettled) : first'.andThen next' = first.andThen next := by
  have settledFirst : first.IsSettled := by
    intro memory isCut
    refine settled memory ?_
    unfold Execution.andThen
    rw [isCut]
    exact isCut
  rw [agree settledFirst]
  unfold Execution.andThen at settled ⊢
  cases ending : first.outcome with
  | ended memory =>
      rw [ending] at settled
      dsimp only
      rw [agreeNext memory settled]
  | left | stuck | cut => rfl

/-- Whether the value on top of the operands is that of a condition that holds. -/
def holds (operands : List Word) : Bool := operands.head? = some (-1)

section Execute

variable {ω : Type} (library : Library) (env : Environment ω)

/-- One evaluation, and what is executed with the operands and the memory that it leaves. -/
def evaluating (evaluation : Evaluation) (memory : ω) (next : List Word → ω → Execution ω) :
    Execution ω :=
  match env.performAll (evaluation.code library) ⟨[], memory⟩ with
  | some after =>
    ⟨evaluation :: (next after.operands after.memory).evaluations,
      (next after.operands after.memory).outcome⟩
  | none => ⟨[], .stuck evaluation⟩

/-- **Execution by structure.**  A branch executes one of its bodies.  A loop executes its body as long
as its condition holds, which is evaluated each time.  A return leaves at once. -/
def execute : Nat → List Statement → ω → Execution ω
  | 0, _, memory => ⟨[], .cut memory⟩
  | _ + 1, [], memory => ⟨[], .ended memory⟩
  | bound + 1, .assign target value :: rest, memory =>
    evaluating library env (.assign target value) memory fun _ memory => execute bound rest memory
  | bound + 1, .assignElement array index value :: rest, memory =>
    evaluating library env (.assignElement array index value) memory fun _ memory =>
      execute bound rest memory
  | bound + 1, .run call :: rest, memory =>
    evaluating library env (.run call) memory fun _ memory => execute bound rest memory
  | bound + 1, .branch _ condition whenTrue whenFalse :: rest, memory =>
    evaluating library env (.test condition) memory fun operands memory =>
      (execute bound (if holds operands then whenTrue else whenFalse) memory).andThen
        (execute bound rest)
  | bound + 1, .loop number condition body :: rest, memory =>
    evaluating library env (.test condition) memory fun operands memory =>
      if holds operands then
        (execute bound body memory).andThen
          (execute bound (.loop number condition body :: rest))
      else execute bound rest memory
  | _ + 1, .leave value :: _, memory =>
    evaluating library env (.result value) memory fun operands memory => ⟨[], .left operands memory⟩

variable {library env}

/-- Two continuations that agree where the first one is settled. -/
theorem evaluating_congr {evaluation : Evaluation} {memory : ω}
    {next other : List Word → ω → Execution ω}
    (agree : ∀ operands memory, (next operands memory).IsSettled →
      other operands memory = next operands memory)
    (settled : (evaluating library env evaluation memory next).IsSettled) :
    evaluating library env evaluation memory other =
      evaluating library env evaluation memory next := by
  unfold evaluating at settled ⊢
  cases done : env.performAll (evaluation.code library) ⟨[], memory⟩ with
  | none => rfl
  | some after =>
      rw [done] at settled
      dsimp only
      rw [agree after.operands after.memory settled]

/-- **The bound matters to unsettled executions only.** -/
theorem execute_succ (bound : Nat) (statements : List Statement) (memory : ω)
    (settled : (execute library env bound statements memory).IsSettled) :
    execute library env (bound + 1) statements memory =
      execute library env bound statements memory := by
  induction bound generalizing statements memory with
  | zero => exact absurd rfl (settled memory)
  | succ bound ih =>
      cases statements with
      | nil => rfl
      | cons statement rest =>
          cases statement with
          | assign | assignElement | run =>
              exact evaluating_congr (fun _ memory settled => ih rest memory settled) settled
          | branch number condition whenTrue whenFalse =>
              refine evaluating_congr (fun operands memory settled => ?_) settled
              exact andThen_congr (ih _ _) (fun memory => ih rest memory) settled
          | loop number condition body =>
              refine evaluating_congr (fun operands memory settled => ?_) settled
              split at settled
              · rename_i true_
                rw [if_pos true_, if_pos true_]
                exact andThen_congr (ih _ _) (fun memory => ih _ memory) settled
              · rename_i false_
                rw [if_neg false_, if_neg false_]
                exact ih rest memory settled
          | leave value => rfl

end Execute

/-! ## Realization -/

section Realization

variable {ω : Type} (library : Library) (env : Environment ω) (program : List Instruction)

/-- The machine has these operands on top of those that calls have left behind, of which there are none if
all calls fit. -/
def Shows (fits : Prop) (config : Configuration ω) (operands : List Word) (memory : ω) :
    Prop :=
  ∃ below, (fits → below = []) ∧ config.toSituation = ⟨operands ++ below, memory⟩

/-- Where the machine arrives with an execution: behind the code, at a return, in front of an
instruction that cannot be performed, or anywhere once enough steps are made. -/
def Arrives (fits : Prop) (outcome : Outcome ω) (finish bound steps : Nat)
    (unfinished : List Instruction) (config : Configuration ω) : Prop :=
  match outcome with
  | .ended memory => unfinished = [] ∧ Shows fits config [] memory ∧ config.position = finish
  | .left result memory => unfinished = [] ∧ Shows fits config result memory ∧
    program[config.position]? = some .return_
  | .stuck evaluation => unfinished <+: evaluation.code library ∧ step env program config = none
  | .cut memory => unfinished = [] ∧ Shows fits config [] memory ∧ bound ≤ steps

/-- **Realization.**  A run performs exactly the evaluations of an execution, in order, and a beginning of
the one that does not come to an end, and arrives where the execution ends. -/
def Realizes (fits : Prop) (start : Configuration ω) (execution : Execution ω)
    (finish bound : Nat) : Prop :=
  ∃ steps unfinished config,
    Runs env program steps start
      (execution.evaluations.flatMap (·.performed library) ++ unfinished) config ∧
    Arrives library env program fits execution.outcome finish bound steps unfinished config

variable {library env program} {fits : Prop} {start next : Configuration ω}
  {execution : Execution ω} {finish middle bound : Nat}

/-- Where an execution ends the machine is behind the code, with nothing but what calls have left. -/
theorem Shows.eq_behind {config : Configuration ω} {memory : ω}
    (shows : Shows fits config [] memory) (there : config.position = finish) :
    ∃ below, (fits → below = []) ∧ config = ⟨⟨below, memory⟩, finish⟩ := by
  obtain ⟨situation, position⟩ := config
  obtain ⟨below, none, rfl⟩ := shows
  obtain rfl := there
  exact ⟨below, none, rfl⟩

/-- More steps in front allow for a higher bound. -/
theorem Arrives.mono {outcome : Outcome ω} {bound' steps steps' : Nat}
    {unfinished : List Instruction} {config : Configuration ω}
    (arrives : Arrives library env program fits outcome finish bound steps unfinished config)
    (more : bound ≤ steps → bound' ≤ steps') :
    Arrives library env program fits outcome finish bound' steps' unfinished config := by
  cases outcome with
  | ended memory => exact arrives
  | left result memory => exact arrives
  | stuck evaluation => exact arrives
  | cut memory => exact ⟨arrives.1, arrives.2.1, more arrives.2.2⟩

/-- A run in front of what is realized. -/
theorem Realizes.prepend {steps : Nat} {evaluations : List Evaluation}
    (run : Runs env program steps start (evaluations.flatMap (·.performed library)) next)
    (some : 0 < steps) (realizes : Realizes library env program fits next execution finish bound) :
    Realizes library env program fits start
      ⟨evaluations ++ execution.evaluations, execution.outcome⟩ finish (bound + 1) := by
  obtain ⟨more, unfinished, config, runs, arrives⟩ := realizes
  refine ⟨more + steps, unfinished, config, ?_, arrives.mono fun enough => by omega⟩
  rw [List.flatMap_append, List.append_assoc]
  exact run.trans runs

/-- Steps in front that perform nothing. -/
theorem Realizes.behind {steps : Nat} (run : Runs env program steps start [] next)
    (realizes : Realizes library env program fits next execution finish bound) :
    Realizes library env program fits start execution finish bound := by
  obtain ⟨more, unfinished, config, runs, arrives⟩ := realizes
  exact ⟨more + steps, unfinished, config, run.trans runs, arrives.mono fun enough => by omega⟩

/-- Where the machine arrives otherwise than behind the code does not depend on where that is. -/
theorem Arrives.elsewhere {outcome : Outcome ω} {steps : Nat} {unfinished : List Instruction}
    {config : Configuration ω}
    (arrives : Arrives library env program fits outcome middle bound steps unfinished config)
    (open_ : ∀ memory, outcome ≠ .ended memory) :
    Arrives library env program fits outcome finish bound steps unfinished config := by
  cases outcome with
  | ended memory => exact absurd rfl (open_ memory)
  | left result memory => exact arrives
  | stuck evaluation => exact arrives
  | cut memory => exact arrives

/-- One execution behind another. -/
theorem Realizes.andThen {behind : ω → Execution ω}
    (first : Realizes library env program fits start execution middle bound)
    (second : ∀ below memory, (fits → below = []) → execution.outcome = .ended memory →
      Realizes library env program fits ⟨⟨below, memory⟩, middle⟩ (behind memory) finish bound) :
    Realizes library env program fits start (execution.andThen behind) finish bound := by
  obtain ⟨steps, unfinished, config, runs, arrives⟩ := first
  unfold Execution.andThen
  split
  · rename_i memory ending
    rw [ending] at arrives
    obtain ⟨rfl, shows, there⟩ := arrives
    obtain ⟨below, none, rfl⟩ := shows.eq_behind there
    obtain ⟨more, unfinished, config, runsBehind, arrives⟩ := second below memory none ending
    rw [List.append_nil] at runs
    refine ⟨more + steps, unfinished, config, ?_, arrives.mono fun enough => by omega⟩
    rw [List.flatMap_append, List.append_assoc]
    exact runs.trans runsBehind
  · rename_i open_
    exact ⟨steps, unfinished, config, runs, arrives.elsewhere open_⟩

/-- Behind the last statement control goes on to another place. -/
theorem Realizes.goOn (realizes : Realizes library env program fits start execution middle bound)
    (onward : ∀ operands memory, ∃ steps, Runs env program steps ⟨⟨operands, memory⟩, middle⟩ []
      ⟨⟨operands, memory⟩, finish⟩) :
    Realizes library env program fits start execution finish bound := by
  obtain ⟨steps, unfinished, config, runs, arrives⟩ := realizes
  by_cases ends : ∃ memory, execution.outcome = .ended memory
  · obtain ⟨memory, ending⟩ := ends
    rw [ending] at arrives
    obtain ⟨rfl, shows, there⟩ := arrives
    obtain ⟨below, none, rfl⟩ := shows.eq_behind there
    obtain ⟨more, jumps⟩ := onward below memory
    have run := runs.trans jumps
    rw [List.append_nil] at run
    exact ⟨more + steps, [], _, run, by rw [ending]; exact ⟨rfl, ⟨below, none, rfl⟩, rfl⟩⟩
  · refine ⟨steps, unfinished, config, runs, arrives.elsewhere fun memory ending => ?_⟩
    exact ends ⟨memory, ending⟩

/-- **One evaluation.**  Its code is performed, then what else belongs to it, and the rest of the
execution follows.  Operands that lie on the stack before stay where they are. -/
theorem realizes_evaluating (evaluation : Evaluation) {position left : Nat} {below : List Word}
    {memory : ω} {rest : List Word → ω → Execution ω}
    (straight : Straight (evaluation.code library))
    (supplied : Supplied 0 (evaluation.code library) left)
    (codeAt : CodeAt program position (evaluation.code library))
    (nonempty : 0 < (evaluation.code library).length)
    (behind : ∀ after, env.performAll (evaluation.code library) ⟨[], memory⟩ = some after →
      ∃ steps log config, Runs env program steps
          ⟨after.above below, position + (evaluation.code library).length⟩ log config ∧
        evaluation.performed library = evaluation.code library ++ log ∧
        Realizes library env program fits config (rest after.operands after.memory) finish bound) :
    Realizes library env program fits ⟨⟨below, memory⟩, position⟩
      (evaluating library env evaluation memory rest) finish (bound + 1) := by
  have framed : env.performAll (evaluation.code library) ⟨[] ++ below, memory⟩ =
      (env.performAll (evaluation.code library) ⟨[], memory⟩).map (·.above below) :=
    supplied.performAll_above (Nat.zero_le _)
  unfold evaluating
  cases done : env.performAll (evaluation.code library) ⟨[], memory⟩ with
  | none =>
      rw [done] at framed
      obtain ⟨steps, log, config, runs, isPrefix, halted⟩ := runs_stuck straight codeAt framed
      exact ⟨steps, log, config, runs, isPrefix, halted⟩
  | some after =>
      rw [done] at framed
      obtain ⟨steps, log, config, runs, performed, realizes⟩ := behind after done
      have run := (runs_straight straight codeAt framed).trans runs
      rw [← performed] at run
      rw [← List.flatMap_singleton (Evaluation.performed library)] at run
      exact Realizes.prepend run (by omega) realizes

/-- What is performed in an execution, with all of an evaluation that does not come to an end. -/
def Execution.performed (library : Library) (execution : Execution ω) : List Instruction :=
  execution.evaluations.flatMap (·.performed library) ++
    match execution.outcome with
    | .stuck evaluation => evaluation.code library
    | _ => []

/-- **Nothing else is performed.**  Every run performs a beginning of the execution, or the execution
ends and the run goes on from where it ends. -/
theorem Realizes.exact (realizes : Realizes library env program fits start execution finish bound)
    {steps : Nat} {log : List Instruction} {config : Configuration ω}
    (run : Runs env program steps start log config) (within : steps ≤ bound) :
    log <+: execution.performed library ∨
      ∃ below memory rest more, (fits → below = []) ∧ execution.outcome = .ended memory ∧
        log = execution.performed library ++ rest ∧
        Runs env program more ⟨⟨below, memory⟩, finish⟩ rest config := by
  obtain ⟨enough, unfinished, stop, runs, arrives⟩ := realizes
  have whole : execution.evaluations.flatMap (·.performed library) ++ unfinished <+:
      execution.performed library := by
    refine (List.prefix_append_right_inj _).mpr ?_
    cases outcome : execution.outcome with
    | ended memory | left result memory | cut memory =>
        rw [outcome] at arrives
        simp only [arrives.1, List.nil_prefix]
    | stuck evaluation =>
        rw [outcome] at arrives
        exact arrives.1
  -- two runs from one start differ in length only, so one of them is the beginning of the other
  by_cases longer : steps ≤ enough
  · obtain ⟨rest, same, -⟩ := run.continues runs longer
    exact .inl (((List.prefix_append log rest).trans (same ▸ List.prefix_rfl)).trans whole)
  · obtain ⟨rest, same, onward⟩ := runs.continues run (by omega)
    cases outcome : execution.outcome with
    | ended memory =>
        rw [outcome] at arrives
        obtain ⟨rfl, shows, there⟩ := arrives
        obtain ⟨below, none, rfl⟩ := shows.eq_behind there
        refine .inr ⟨below, memory, rest, _, none, rfl, ?_, onward⟩
        rw [same, Execution.performed, outcome]
    | left result memory =>
        rw [outcome] at arrives
        have halted : step env program stop = none := by
          unfold step
          rw [arrives.2.2]
          rfl
        exact absurd (runs.le_of_halted halted run) longer
    | stuck evaluation =>
        rw [outcome] at arrives
        exact absurd (runs.le_of_halted arrives.2 run) longer
    | cut memory =>
        rw [outcome] at arrives
        exact absurd (within.trans arrives.2.2) longer

end Realization

/-! ## Steps of control -/

section Control

variable {ω : Type} {env : Environment ω} {program : List Instruction} {position target : Nat}
  {name : String} {operands : List Word} {memory : ω}

theorem runs_label (here : program[position]? = some (.label name)) :
    Runs env program 1 ⟨⟨operands, memory⟩, position⟩ [] ⟨⟨operands, memory⟩, position + 1⟩ := by
  have stepped : step env program ⟨⟨operands, memory⟩, position⟩ =
      some ⟨⟨operands, memory⟩, position + 1⟩ := by
    unfold step
    rw [here]
  have run := Runs.cons stepped (.refl _)
  rwa [performed, here] at run

theorem runs_goto (here : program[position]? = some (.goto name))
    (there : target? program name = some target) :
    Runs env program 1 ⟨⟨operands, memory⟩, position⟩ [] ⟨⟨operands, memory⟩, target⟩ := by
  have stepped : step env program ⟨⟨operands, memory⟩, position⟩ =
      some ⟨⟨operands, memory⟩, target⟩ := by
    unfold step
    rw [here]
    dsimp only
    rw [there]
    rfl
  have run := Runs.cons stepped (.refl _)
  rwa [performed, here] at run

/-- The complement of a word is zero for the value of a condition that holds, and for no other. -/
theorem complement_eq_zero_iff (value : Word) : ~~~value = 0 ↔ value = -1 := by
  rw [BitVec.not_eq_comm]
  exact Iff.of_eq (congrArg (value = ·) rfl)

/-- **A test.**  Control goes on behind it if the condition holds, and to the label otherwise. -/
theorem runs_test {value : Word}
    (codeAt : CodeAt program position [.operate .not, .ifGoto name])
    (there : target? program name = some target) :
    Runs env program 2 ⟨⟨value :: operands, memory⟩, position⟩ [.operate .not]
      ⟨⟨operands, memory⟩, if holds (value :: operands) then position + 2 else target⟩ := by
  obtain ⟨negation, jump, -⟩ := codeAt
  have negated : step env program ⟨⟨value :: operands, memory⟩, position⟩ =
      some ⟨⟨~~~value :: operands, memory⟩, position + 1⟩ := by
    rw [step_straight ⟨⟨value :: operands, memory⟩, position⟩ negation rfl]
    rfl
  have jumped : step env program ⟨⟨~~~value :: operands, memory⟩, position + 1⟩ =
      some ⟨⟨operands, memory⟩, if holds (value :: operands) then position + 2 else target⟩ := by
    unfold step
    rw [jump]
    dsimp only
    by_cases true_ : value = -1
    · rw [if_pos ((complement_eq_zero_iff value).mpr true_), true_]
      rfl
    · have other : holds (value :: operands) = false :=
        decide_eq_false fun top => true_ (Option.some.inj top)
      rw [if_neg fun zero => true_ ((complement_eq_zero_iff value).mp zero), there, other]
      rfl
  have run := Runs.cons negated (.cons jumped (.refl _))
  rwa [performed_straight ⟨⟨value :: operands, memory⟩, position⟩ negation rfl, performed,
    jump] at run

end Control

namespace Written

/-! ## Operands that are there -/

section Supplied

variable (library : Library) (table : Symbol.Table) (className : String)

mutual

/-- The code of an expression finds its operands, and leaves at least one more. -/
theorem Tree.supplied_code (tree : Tree) (before : Nat) :
    Supplied before (tree.codeBy counted library table className) (before + 1) := by
  cases tree with
  | integer | false_ | null | this | «variable» => exact ⟨Nat.zero_le _, Nat.le_refl _⟩
  | true_ => exact ⟨Nat.zero_le _, Nat.succ_le_succ (Nat.zero_le _), Nat.le_refl _⟩
  | string content =>
      have begun : Supplied before
          [.push .constant content.toList.length, .call library.newString 1] (before + 1) :=
        ⟨Nat.zero_le _, Nat.succ_le_succ (Nat.zero_le _), Nat.le_refl _⟩
      have appended (characters : List Char) : Supplied (before + 1) (characters.flatMap fun c =>
          [.push .constant c.toNat, .call library.appendCharacter 2]) (before + 1) := by
        induction characters with
        | nil => exact .nil
        | cons c rest ih =>
            have one : Supplied (before + 1)
                [.push .constant c.toNat, .call library.appendCharacter 2] (before + 1) :=
              ⟨Nat.zero_le _, Nat.le_add_left _ _, Nat.le_refl _⟩
            exact one.append ih
      exact begun.append (appended content.toList)
  | element array index =>
      have array : Supplied before [(placeOf table array).push] (before + 1) :=
        ⟨Nat.zero_le _, Nat.le_refl _⟩
      refine array.append ((index.supplied_code (before + 1)).append ⟨?_, ?_, Nat.zero_le _, ?_⟩)
      · exact Nat.le_add_left _ _
      · exact Nat.le_add_left _ _
      · exact Nat.le_refl _
  | call callee arguments =>
      have passed : Supplied before ((callee.receiver table).toList.map Place.push)
          (before + (callee.receiver table).toList.length) := by
        cases callee.receiver table with
        | none => exact .nil
        | some place => exact ⟨Nat.zero_le _, Nat.le_refl _⟩
      have few := counted_le_self (arguments.length + (callee.receiver table).toList.length)
      refine (passed.append (supplied_codes arguments _)).append ⟨?_, ?_⟩
      · show counted _ ≤ _
        omega
      · show before + 1 ≤ _ - counted _ + 1
        omega
  | unary operator operand =>
      refine (operand.supplied_code before).append ?_
      cases operator <;> exact ⟨Nat.le_add_left _ _, Nat.le_refl _⟩
  | binary operator left right =>
      refine ((left.supplied_code before).append (right.supplied_code (before + 1))).append ?_
      cases operator <;> exact ⟨Nat.le_add_left _ _, Nat.le_refl _⟩

theorem supplied_codes (trees : List Tree) (before : Nat) :
    Supplied before (codesBy counted library table className trees) (before + trees.length) := by
  cases trees with
  | nil => exact .nil
  | cons tree rest =>
      have rest := supplied_codes rest (before + 1)
      rw [Nat.add_right_comm, Nat.add_assoc] at rest
      exact (tree.supplied_code before).append rest

end

theorem supplied_expression (expression : Expression) (before : Nat) :
    Supplied before ((expression.resolved table className).code library) (before + 1) := by
  rw [code_resolved]
  exact expression.tree.supplied_code library table className before

theorem supplied_assign (target : Place) (value : Expression) :
    Supplied 0 ((Jack.Statement.assign target (value.resolved table className)).code library) 0 := by
  rw [Jack.Statement.code_assign]
  exact (supplied_expression library table className value 0).append ⟨Nat.le_refl 1, Nat.le_refl 0⟩

theorem supplied_assignElement (array : Place) (index value : Expression) :
    Supplied 0 ((Jack.Statement.assignElement array (index.resolved table className)
      (value.resolved table className)).code library) 0 := by
  have pushed : Supplied 0 [array.push] 1 := ⟨Nat.le_refl 0, Nat.le_refl 1⟩
  have added : Supplied 2 [.operate .add] 1 := ⟨Nat.le_refl 2, Nat.le_refl 1⟩
  have kept : Supplied 2 [.pop .temp 0] 1 := ⟨Nat.le_add_left _ _, Nat.le_refl 1⟩
  have address : Supplied 1 [.pop .pointer 1] 0 := ⟨Nat.le_refl 1, Nat.le_refl 0⟩
  have element : Supplied 0 [.push .temp 0, .pop .that 0] 0 :=
    ⟨Nat.le_refl 0, Nat.le_refl 1, Nat.le_refl 0⟩
  have stored : Supplied 2 storeElement 0 := kept.append (address.append element)
  rw [Jack.Statement.code_assignElement]
  exact (((pushed.append (supplied_expression library table className index 1)).append added).append
    (supplied_expression library table className value 1)).append stored

theorem supplied_run (callee : Callee) (arguments : List Expression) :
    Supplied 0 ((Jack.Statement.run (resolvedCall table className callee arguments)).code library)
      0 := by
  rw [Jack.Statement.code_run, code_resolvedCall]
  exact (Tree.supplied_code library table className _ 0).append ⟨Nat.le_refl 1, Nat.le_refl 0⟩

/-- The code of a written expression is not empty. -/
theorem length_code_pos (expression : Expression) :
    0 < ((expression.resolved table className).code library).length := by
  have supplied := supplied_expression library table className expression 0
  cases code : (expression.resolved table className).code library with
  | nil =>
      rw [code] at supplied
      exact absurd supplied (Nat.not_succ_le_zero 0)
  | cons => exact Nat.succ_pos _

end Supplied

/-! ## Statements -/

/-- Labels of a code are found where they stand. -/
def Resolves (program code : List Instruction) : Prop :=
  ∀ name position, .label name ∈ code → program[position]? = some (.label name) →
    target? program name = some position

theorem Resolves.mono {program code part : List Instruction} (resolves : Resolves program code)
    (within : part ⊆ code) : Resolves program part :=
  fun name position member => resolves name position (within member)

section Simulation

variable {ω : Type} {library : Library} {env : Environment ω} {program : List Instruction}
  {table : Symbol.Table} {className : String} {fits : Prop} {bound finish position : Nat}
  {below : List Word} {memory : ω}

/-- The code of statements realizes their execution, wherever it stands in the program. -/
def Implements (library : Library) (env : Environment ω) (program : List Instruction) (fits : Prop)
    (bound : Nat) (statements : List Jack.Statement) : Prop :=
  ∀ position below memory, (fits → below = []) →
    CodeAt program position (statementsCode library statements) →
    Realizes library env program fits ⟨⟨below, memory⟩, position⟩
      (execute library env bound statements memory)
      (position + (statementsCode library statements).length) bound

/-- An evaluation that leaves no operand, if all calls fit. -/
theorem realizes_simple {evaluation : Evaluation} {rest : ω → Execution ω}
    (straight : Straight (evaluation.code library))
    (supplied : Supplied 0 (evaluation.code library) 0)
    (walks : fits → Walks 0 (evaluation.code library) 0)
    (whole : evaluation.performed library = evaluation.code library)
    (nonempty : 0 < (evaluation.code library).length)
    (codeAt : CodeAt program position (evaluation.code library)) (none : fits → below = [])
    (behind : ∀ below memory, (fits → below = []) → Realizes library env program fits
      ⟨⟨below, memory⟩, position + (evaluation.code library).length⟩ (rest memory) finish bound) :
    Realizes library env program fits ⟨⟨below, memory⟩, position⟩
      (evaluating library env evaluation memory fun _ memory => rest memory) finish (bound + 1) := by
  refine realizes_evaluating _ straight supplied codeAt nonempty ?_
  rintro ⟨operands, after⟩ done
  have noneLeft (fit : fits) : operands ++ below = [] := by
    have length : (operands.length : Int) = 0 := (walks fit).length_operands rfl done
    rw [List.length_eq_zero_iff.mp (Int.natCast_eq_zero.mp length), none fit, List.append_nil]
  exact ⟨0, [], _, .refl _, by rw [whole, List.append_nil], behind _ after noneLeft⟩

/-- **A condition** is evaluated, and control goes on behind the test or at its label. -/
theorem realizes_test {condition : Expression} {name : String} {target : Nat}
    {rest : List Word → ω → Execution ω} (fit : fits → CallsFit table condition.calls)
    (codeAt : CodeAt program position
      ((condition.resolved table className).code library ++ [Instruction.operate .not, .ifGoto name]))
    (there : target? program name = some target) (none : fits → below = [])
    (behind : ∀ operands below memory, (fits → below = []) → Realizes library env program fits
      ⟨⟨below, memory⟩, if holds operands then
        position + ((condition.resolved table className).code library).length + 2 else target⟩
      (rest operands memory) finish bound) :
    Realizes library env program fits ⟨⟨below, memory⟩, position⟩
      (evaluating library env (.test (condition.resolved table className)) memory rest) finish
      (bound + 1) := by
  obtain ⟨computes, tests⟩ := CodeAt.append_iff.mp codeAt
  have supplied := supplied_expression library table className condition 0
  refine realizes_evaluating (.test (condition.resolved table className))
    (straight_expression library table className condition) supplied computes
    (length_code_pos library table className condition) ?_
  rintro ⟨operands, after⟩ done
  have some : 1 ≤ operands.length := supplied.length_le_performAll (Nat.zero_le _) done
  obtain ⟨value, more, rfl⟩ := List.exists_cons_of_length_pos some
  have noneLeft (all : fits) : more ++ below = [] := by
    have length : (((value :: more).length : Nat) : Int) = 0 + 1 :=
      (walks_expression library table className condition (fit all) (Int.le_refl 0)).length_operands
        rfl done
    have noMore : more.length = 0 := by
      rw [List.length_cons] at length
      omega
    rw [List.length_eq_zero_iff.mp noMore, none all, List.append_nil]
  exact ⟨2, [.operate .not], _, runs_test tests there, rfl,
    behind (value :: more) (more ++ below) after noneLeft⟩

/-- **A branch.**  Behind the body that is executed, control goes on behind the branch. -/
theorem realizes_branch {number : Nat} {condition : Expression}
    {whenTrue whenFalse rest : List Jack.Statement} (fit : fits → CallsFit table condition.calls)
    (none : fits → below = [])
    (codeAt : CodeAt program position (statementsCode library
      (.branch number (condition.resolved table className) whenTrue whenFalse :: rest)))
    (resolves : Resolves program (statementsCode library
      (.branch number (condition.resolved table className) whenTrue whenFalse :: rest)))
    (first : Implements library env program fits bound whenTrue)
    (second : Implements library env program fits bound whenFalse)
    (behind : Implements library env program fits bound rest) :
    Realizes library env program fits ⟨⟨below, memory⟩, position⟩
      (execute library env (bound + 1)
        (.branch number (condition.resolved table className) whenTrue whenFalse :: rest) memory)
      (position + (statementsCode library
        (.branch number (condition.resolved table className) whenTrue whenFalse :: rest)).length)
      (bound + 1) := by
  rw [statementsCode_cons, Jack.Statement.code_branch] at codeAt resolves ⊢
  obtain ⟨whole, restAt⟩ := CodeAt.append_iff.mp codeAt
  obtain ⟨front, ⟨labelFalse, -⟩⟩ := CodeAt.append_iff.mp whole
  obtain ⟨front, secondAt⟩ := CodeAt.append_iff.mp front
  obtain ⟨front, ⟨jump, labelTrue, -⟩⟩ := CodeAt.append_iff.mp front
  obtain ⟨test, firstAt⟩ := CodeAt.append_iff.mp front
  have toTrue := resolves _ _ (by simp) labelTrue
  have toFalse := resolves _ _ (by simp) labelFalse
  refine realizes_test fit test toTrue none ?_
  intro operands below memory none
  have next (below : List Word) (memory : ω) (none : fits → below = []) :=
    behind _ below memory none restAt
  simp only [List.length_append, List.length_cons, List.length_nil, ← Nat.add_assoc, Nat.zero_add]
    at *
  refine Realizes.andThen ?_ fun below memory none _ => next below memory none
  by_cases true_ : holds operands = true
  · rw [if_pos true_, if_pos true_]
    refine (first _ below memory none firstAt).goOn fun _ _ => ⟨2, ?_⟩
    exact (runs_goto jump toFalse).trans (runs_label labelFalse)
  · rw [if_neg true_, if_neg true_]
    refine ((second _ below memory none secondAt).behind (runs_label labelTrue)).goOn
      fun _ _ => ⟨1, ?_⟩
    exact runs_label labelFalse

/-- **A loop.**  Behind its body, control comes back to its condition. -/
theorem realizes_loop {number : Nat} {condition : Expression} {body rest : List Jack.Statement}
    (fit : fits → CallsFit table condition.calls) (none : fits → below = [])
    (codeAt : CodeAt program position (statementsCode library
      (.loop number (condition.resolved table className) body :: rest)))
    (resolves : Resolves program (statementsCode library
      (.loop number (condition.resolved table className) body :: rest)))
    (repeated : Implements library env program fits bound body)
    (again : Implements library env program fits bound
      (.loop number (condition.resolved table className) body :: rest))
    (behind : Implements library env program fits bound rest) :
    Realizes library env program fits ⟨⟨below, memory⟩, position⟩
      (execute library env (bound + 1)
        (.loop number (condition.resolved table className) body :: rest) memory)
      (position + (statementsCode library
        (.loop number (condition.resolved table className) body :: rest)).length)
      (bound + 1) := by
  have next (below : List Word) (memory : ω) (none : fits → below = []) :=
    again position below memory none codeAt
  rw [statementsCode_cons, Jack.Statement.code_loop] at codeAt resolves next ⊢
  simp only [List.cons_append] at codeAt resolves next ⊢
  rw [List.length_cons, ← Nat.add_assoc position, Nat.add_right_comm position] at next ⊢
  obtain ⟨labelTop, codeAt⟩ := codeAt
  obtain ⟨whole, restAt⟩ := CodeAt.append_iff.mp codeAt
  obtain ⟨front, ⟨jump, labelExit, -⟩⟩ := CodeAt.append_iff.mp whole
  obtain ⟨test, bodyAt⟩ := CodeAt.append_iff.mp front
  have toTop := resolves _ _ (by simp) labelTop
  have toExit := resolves _ _ (by simp) labelExit
  refine Realizes.behind (runs_label labelTop) (realizes_test fit test toExit none ?_)
  intro operands below memory none
  have onward := behind _ below memory none restAt
  simp only [List.length_append, List.length_cons, List.length_nil, ← Nat.add_assoc, Nat.zero_add]
    at *
  by_cases true_ : holds operands = true
  · rw [if_pos true_, if_pos true_]
    refine Realizes.andThen ?_ fun below memory none _ => next below memory none
    exact (repeated _ below memory none bodyAt).goOn fun _ _ => ⟨1, runs_goto jump toTop⟩
  · rw [if_neg true_, if_neg true_]
    exact onward.behind (runs_label labelExit)

/-- A statement that is one evaluation. -/
theorem realizes_statement {statement : Jack.Statement} (evaluation : Evaluation)
    {rest : List Jack.Statement} (same : evaluation.code library = statement.code library)
    (whole : evaluation.performed library = evaluation.code library)
    (executes : ∀ memory, execute library env (bound + 1) (statement :: rest) memory =
      evaluating library env evaluation memory fun _ memory => execute library env bound rest memory)
    (straight : Straight (statement.code library)) (supplied : Supplied 0 (statement.code library) 0)
    (walks : fits → Walks 0 (statement.code library) 0) (none : fits → below = [])
    (nonempty : 0 < (statement.code library).length)
    (codeAt : CodeAt program position (statementsCode library (statement :: rest)))
    (behind : Implements library env program fits bound rest) :
    Realizes library env program fits ⟨⟨below, memory⟩, position⟩
      (execute library env (bound + 1) (statement :: rest) memory)
      (position + (statementsCode library (statement :: rest)).length) (bound + 1) := by
  rw [statementsCode_cons] at codeAt ⊢
  obtain ⟨here, restAt⟩ := CodeAt.append_iff.mp codeAt
  rw [executes, List.length_append, ← Nat.add_assoc]
  rw [← same] at straight supplied walks nonempty here restAt ⊢
  exact realizes_simple straight supplied walks whole nonempty here none
    fun below memory none => behind _ below memory none restAt

/-- A return is reached with its result. -/
theorem realizes_leave {value : Option Expression} {rest : List Jack.Statement}
    (none : fits → below = [])
    (codeAt : CodeAt program position (statementsCode library
      (.leave (value.map (·.resolved table className)) :: rest))) :
    Realizes library env program fits ⟨⟨below, memory⟩, position⟩
      (execute library env (bound + 1) (.leave (value.map (·.resolved table className)) :: rest)
        memory) finish (bound + 1) := by
  have shape : ∃ code : List Instruction,
      (Evaluation.result (value.map (·.resolved table className))).code library = code ∧
      (Jack.Statement.leave (value.map (·.resolved table className))).code library =
        code ++ [.return_] ∧ Straight code ∧ Supplied 0 code 1 ∧ 0 < code.length := by
    cases value with
    | none =>
        exact ⟨_, rfl, Jack.Statement.code_leave_none library, .cons rfl .nil,
          ⟨Nat.le_refl 0, Nat.le_refl 1⟩, Nat.one_pos⟩
    | some value =>
        exact ⟨_, rfl, Jack.Statement.code_leave_some library _,
          straight_expression library table className value,
          supplied_expression library table className value 0,
          length_code_pos library table className value⟩
  obtain ⟨code, same, split, straight, supplied, nonempty⟩ := shape
  rw [statementsCode_cons, split] at codeAt
  obtain ⟨here, returns, -⟩ := CodeAt.append_iff.mp (CodeAt.append_iff.mp codeAt).1
  rw [← same] at straight supplied nonempty here returns
  refine realizes_evaluating _ straight supplied here nonempty ?_
  intro after _
  exact ⟨0, [], _, .refl _, (List.append_nil _).symm, 0, [], _, .refl _, rfl, ⟨below, none, rfl⟩,
    returns⟩

/-- **Execution by structure is realized.** -/
theorem implements_resolved (bound : Nat) (written : List Statement) (first : Nat)
    (fit : fits → CallsFit table (statementCalls written))
    (resolves : Resolves program
      (statementsCode library (resolvedStatements table className first written))) :
    Implements library env program fits bound (resolvedStatements table className first written) := by
  -- every statement uses up one of the bound, a loop that comes back to its condition as well
  induction bound generalizing written first with
  | zero =>
      intro position below memory none _
      exact ⟨0, [], _, .refl _, rfl, ⟨below, none, rfl⟩, Nat.le_refl 0⟩
  | succ bound ih =>
      intro position below memory none codeAt
      cases written with
      | nil => exact ⟨0, [], _, .refl _, rfl, ⟨below, none, rfl⟩, rfl⟩
      | cons statement rest =>
          have behind : Implements library env program fits bound
              (resolvedStatements table className (first + statement.branchings) rest) := by
            refine ih rest _ (fun all => (fit all).behind) (resolves.mono ?_)
            rw [resolvedStatements, statementsCode_cons]
            exact List.subset_append_right _ _
          have here (all : fits) : CallsFit table statement.calls := (fit all).front
          have inner : ∀ {body number}, (fits → CallsFit table (statementCalls body)) →
              statementsCode library (resolvedStatements table className number body) ⊆
                (statement.resolved table className first).code library →
              Implements library env program fits bound
                (resolvedStatements table className number body) := by
            intro body number fit within
            refine ih body number fit (resolves.mono ?_)
            rw [resolvedStatements, statementsCode_cons]
            exact List.Subset.trans within (List.subset_append_left _ _)
          have walks (all : fits) := statement.walks_code library table className (here all) first
          cases statement with
          | assign target value =>
              refine realizes_statement (.assign _ _) rfl rfl (fun _ => rfl)
                (straight_assign library table className _ value)
                (supplied_assign library table className _ value) walks none ?_ codeAt behind
              rw [Statement.resolved, Jack.Statement.code_assign, List.length_append]
              exact Nat.succ_pos _
          | assignElement array index value =>
              refine realizes_statement (.assignElement _ _ _) rfl rfl (fun _ => rfl)
                (straight_assignElement library table className _ index value)
                (supplied_assignElement library table className _ index value) walks none ?_ codeAt
                behind
              rw [Statement.resolved, Jack.Statement.code_assignElement, List.length_append]
              exact Nat.add_pos_right _ (Nat.succ_pos _)
          | run callee arguments =>
              refine realizes_statement (.run _) rfl rfl (fun _ => rfl)
                (straight_run library table className callee arguments)
                (supplied_run library table className callee arguments) walks none ?_ codeAt behind
              rw [Statement.resolved, Jack.Statement.code_run, List.length_append]
              exact Nat.succ_pos _
          | branch condition body =>
              -- a branch without `else` has an empty second body
              have noBody : Implements library env program fits bound
                  (resolvedStatements table className first []) :=
                inner (fun _ => List.forall_mem_nil _) (List.nil_subset _)
              refine realizes_branch (fun all => (here all).front) none codeAt resolves
                (inner (fun all => (here all).behind) ?_) noBody behind
              rw [Statement.resolved, Jack.Statement.code_branch]
              exact fun i member => by simp [member]
          | choice condition whenTrue whenFalse =>
              refine realizes_branch (fun all => (here all).front) none codeAt resolves
                (inner (fun all => (here all).behind.front) ?_)
                (inner (fun all => (here all).behind.behind) ?_) behind
              · rw [Statement.resolved, Jack.Statement.code_branch]
                exact fun i member => by simp [member]
              · rw [Statement.resolved, Jack.Statement.code_branch]
                exact fun i member => by simp [member]
          | loop condition body =>
              refine realizes_loop (fun all => (here all).front) none codeAt resolves
                (inner (fun all => (here all).behind) ?_)
                (ih (.loop condition body :: rest) first fit resolves) behind
              rw [Statement.resolved, Jack.Statement.code_loop]
              exact fun i member => by simp [member]
          | leave value => exact realizes_leave none codeAt

/-- Labels that stand only once, and nowhere else in the program, are found where they stand. -/
theorem resolves_between {front code behind : List Instruction}
    (once : ∀ name, code.count (.label name) ≤ 1)
    (apart : ∀ name, .label name ∈ front ∨ .label name ∈ behind → .label name ∉ code) :
    Resolves (front ++ code ++ behind) code := by
  intro name position member here
  refine target?_eq_some ?_ here
  have absent {outer : List Instruction} (outside : .label name ∈ outer → .label name ∉ code) :
      outer.count (.label name) = 0 :=
    List.count_eq_zero.mpr fun inOuter => outside inOuter member
  rw [List.count_append, List.count_append, absent fun inFront => apart name (.inl inFront),
    absent fun inBehind => apart name (.inr inBehind), Nat.zero_add, Nat.add_zero]
  exact once name

end Simulation

/-- **Structured control flow is preserved.**  What the parser of statements accepts is a list of
statements as it is written, and in any surroundings without its labels the machine that starts in front
of its code performs the evaluations of its execution by structure, in order, and no others.  If that
execution ends, control arrives behind the code; if all calls fit, with nothing on the stack. -/
theorem statements_flow_preserved {ω : Type} (library : Library) (env : Environment ω) {budget : Nat}
    {before after : State} {statements : List Jack.Statement}
    (accepted : (Parser.statements budget).run before = .ok statements after)
    {front behind : List Instruction}
    (apart : ∀ name, .label name ∈ front ∨ .label name ∈ behind →
      .label name ∉ statementsCode library statements) :
    ∃ written, Reads (before.passing (branchingsOf written)) (statementTokens written) after ∧
      statements = resolvedStatements before.table before.className before.nextLabel written ∧
    ∀ bound memory,
      let program := front ++ statementsCode library statements ++ behind
      let fits := CallsFit before.table (statementCalls written)
      let start : Configuration ω := ⟨⟨[], memory⟩, front.length⟩
      let finish := front.length + (statementsCode library statements).length
      let execution := execute library env bound statements memory
      Realizes library env program fits start execution finish bound ∧
      ∀ steps log config, Runs env program steps start log config → steps ≤ bound →
        log <+: execution.performed library ∨
          ∃ below memory rest more, (fits → below = []) ∧ execution.outcome = .ended memory ∧
            log = execution.performed library ++ rest ∧
            Runs env program more ⟨⟨below, memory⟩, finish⟩ rest config := by
  obtain ⟨written, reads, -, rfl⟩ := recognizes_statements budget _ _ _ accepted
  refine ⟨written, reads, rfl, ?_⟩
  intro bound memory
  have numbered := numbered_statementsCode library before.table before.className written
    before.nextLabel
  have implements : Implements library env _ (CallsFit before.table (statementCalls written)) bound _ :=
    implements_resolved bound written before.nextLabel id
      (resolves_between numbered.count_le_one apart)
  have realizes := implements front.length [] memory (fun _ => rfl) (.middle front _ behind)
  exact ⟨realizes, fun steps log config run within => realizes.exact run within⟩

/-- In front of `while (x) \x7b let x = 0; \x7d`, where `x` is an argument. -/
private def outsideLoop : State where
  cursor := .ofTokens ([.keyword .while_, .symbol '(', .identifier "x", .symbol ')', .symbol '\x7b',
    .keyword .let_, .identifier "x", .symbol '=', .integer 0, .symbol ';',
    .symbol '\x7d'].map (⟨·, 1⟩))
  table := ({} : Symbol.Table).define "x" "int" .argument

/-- The value of a single variable is all that is remembered. -/
private def cell : Environment Word where
  fetch value _ _ := value
  store _ _ _ value := value
  call _ _ _ := none

/-- The loop ends when its body has been executed once. -/
theorem loop_executed_once : ∃ statements after,
    (Parser.statements 12).run outsideLoop = .ok statements after ∧
    ∃ steps, Runs cell (statementsCode {} statements) steps ⟨⟨[], -1⟩, 0⟩
      [.push .argument 0, .operate .not, .push .constant 0, .pop .argument 0, .push .argument 0,
        .operate .not]
      ⟨⟨[], 0⟩, (statementsCode {} statements).length⟩ := by
  have accepted : (Parser.statements 12).run outsideLoop =
      .ok [.loop 0 (.chain (.variable ⟨.argument, 0⟩) []) [.assign ⟨.argument, 0⟩
        (.chain (.integer 0) [])]]
        { outsideLoop with cursor := ⟨[], 1⟩, nextLabel := 1 } := by
    rfl
  have apart (name : String) (member : .label name ∈ ([] : List Instruction) ∨
      .label name ∈ ([] : List Instruction)) : .label name ∉ statementsCode {}
        [.loop 0 (.chain (.variable ⟨.argument, 0⟩) []) [.assign ⟨.argument, 0⟩
          (.chain (.integer 0) [])]] := by
    rcases member with member | member <;> exact absurd member List.not_mem_nil
  obtain ⟨written, reads, -, flows⟩ := statements_flow_preserved {} cell accepted apart
  obtain ⟨front, rest, spelled⟩ := reads.spelled
  have same : statementTokens [.loop (.chain (.variable "x") []) [.assign "x" (.chain (.integer 0) [])]] =
      statementTokens written := by
    rw [← spelled, ← List.append_nil front, ← rest]
    rfl
  obtain ⟨rfl, -⟩ := statements_unique _ written (congrArg (· ++ [.symbol '\x7d']) same)
  have flow := flows 5 (-1)
  have executed : execute {} cell 5 [.loop 0 (.chain (.variable ⟨.argument, 0⟩) [])
      [.assign ⟨.argument, 0⟩ (.chain (.integer 0) [])]] (-1) =
      ⟨[.test (.chain (.variable ⟨.argument, 0⟩) []),
        .assign ⟨.argument, 0⟩ (.chain (.integer 0) []),
        .test (.chain (.variable ⟨.argument, 0⟩) [])], .ended 0⟩ := by
    rfl
  obtain ⟨steps, unfinished, config, runs, arrives⟩ := flow.1
  rw [executed] at runs arrives
  obtain ⟨rfl, shows, there⟩ := arrives
  obtain ⟨below, none, rfl⟩ := shows.eq_behind there
  obtain rfl := none (List.forall_mem_nil _)
  exact ⟨_, _, accepted, steps, runs⟩

end Written

end JackToolchain.Jack
