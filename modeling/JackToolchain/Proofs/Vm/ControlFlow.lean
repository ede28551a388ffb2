import JackToolchain.Proofs.Hack.StackMachine
import JackToolchain.Proofs.Vm.OperandDepth

/-!
# Control flow

Runs of stack-machine code, instruction by instruction.

## Main Definitions

* `Environment` — the memory in which the segments are kept, and the functions that calls reach.
* `Environment.perform` — what an instruction that does not concern control does to operands and memory.
* `step` — one step: the next instruction is performed, or control passes to a label.
* `Runs` — a number of steps, with the instructions that are performed in them.

## Main Statements

* `runs_straight` — code without control is performed in order.
* `Runs.continues` — the machine is deterministic: of two runs from one configuration, the longer one
  goes on where the shorter one stops.
* `Walks.length_operands` — how many operands lie on the stack behind code that is walked.
* `Supplied.performAll_above` — code that is supplied does not care for operands that lie below its own.
* `target?_eq_some` — a label that stands in a code only once is found where it stands.

## Design Notes

Nothing is assumed about segments and calls but that they are functions: a call takes its arguments and
the memory to a result and a memory, or does not come back.  Labels and jumps are not performed: they
leave operands and memory alone, but for the operand that a conditional jump tests.
-/

namespace JackToolchain.Vm

open Hack (Word truth)

/-! ## What instructions do -/

/-- The memory of a program and the functions that it calls. -/
structure Environment (ω : Type) where
  /-- The content of a cell of a segment. -/
  fetch : ω → Segment → Nat → Word
  /-- The memory with another content in a cell of a segment. -/
  store : ω → Segment → Nat → Word → ω
  /-- What a function returns for its arguments, the last one first; none if it does not return. -/
  call : String → List Word → ω → Option (Word × ω)

/-- The operands on the stack, the topmost first, and the memory. -/
structure Situation (ω : Type) where
  operands : List Word
  memory : ω

/-- The situation with more operands below. -/
def Situation.above {ω : Type} (below : List Word) (situation : Situation ω) : Situation ω :=
  ⟨situation.operands ++ below, situation.memory⟩

/-- What an operation does to the operands. -/
def Operation.compute : Operation → List Word → Option (List Word)
  | .add, y :: x :: rest => some ((x + y) :: rest)
  | .sub, y :: x :: rest => some ((x - y) :: rest)
  | .and, y :: x :: rest => some ((x &&& y) :: rest)
  | .or, y :: x :: rest => some ((x ||| y) :: rest)
  | .eq, y :: x :: rest => some (truth ((x - y).toInt = 0) :: rest)
  | .gt, y :: x :: rest => some (truth (0 < (x - y).toInt) :: rest)
  | .lt, y :: x :: rest => some (truth ((x - y).toInt < 0) :: rest)
  | .neg, x :: rest => some (-x :: rest)
  | .not, x :: rest => some (~~~x :: rest)
  | _, _ => none

/-- Whether an instruction works on operands and memory alone. -/
def Instruction.isStraight : Instruction → Bool
  | push _ _ | pop _ _ | operate _ | call _ _ => true
  | label _ | goto _ | ifGoto _ | function _ _ | return_ => false

/-- Code without labels, jumps, headers and returns. -/
def Straight (code : List Instruction) : Prop := ∀ i ∈ code, i.isStraight = true

namespace Straight

variable {instruction : Instruction} {front behind : List Instruction}

theorem nil : Straight [] := List.forall_mem_nil _

theorem cons (first : instruction.isStraight = true) (rest : Straight behind) :
    Straight (instruction :: behind) :=
  List.forall_mem_cons.mpr ⟨first, rest⟩

theorem append (first : Straight front) (second : Straight behind) : Straight (front ++ behind) :=
  List.forall_mem_append.mpr ⟨first, second⟩

theorem flatMap {α : Type} {code : α → List Instruction} {list : List α}
    (each : ∀ item ∈ list, Straight (code item)) : Straight (list.flatMap code) := by
  intro i member
  obtain ⟨item, inList, inCode⟩ := List.mem_flatMap.mp member
  exact each item inList i inCode

end Straight

namespace Environment

variable {ω : Type} (env : Environment ω)

/-- What an instruction does; none if an operand is missing, if a call does not come back, and for
instructions that concern control. -/
def perform : Instruction → Situation ω → Option (Situation ω)
  | .push .constant index, ⟨operands, memory⟩ => some ⟨BitVec.ofNat 16 index :: operands, memory⟩
  | .push segment index, ⟨operands, memory⟩ => some ⟨env.fetch memory segment index :: operands, memory⟩
  | .pop segment index, ⟨value :: operands, memory⟩ =>
    some ⟨operands, env.store memory segment index value⟩
  | .operate operation, ⟨operands, memory⟩ =>
    (operation.compute operands).map fun operands => ⟨operands, memory⟩
  | .call name count, ⟨operands, memory⟩ =>
    if count ≤ operands.length then
      (env.call name (operands.take count) memory).map fun (result, memory) =>
        ⟨result :: operands.drop count, memory⟩
    else none
  | _, _ => none

/-- What instructions do one after the other. -/
def performAll (code : List Instruction) (situation : Situation ω) : Option (Situation ω) :=
  code.foldlM (fun situation instruction => env.perform instruction situation) situation

theorem performAll_cons (instruction : Instruction) (rest : List Instruction)
    (situation : Situation ω) :
    env.performAll (instruction :: rest) situation =
      (env.perform instruction situation).bind (env.performAll rest) := rfl

end Environment

/-! ## Steps -/

/-- A situation, and the position of the instruction that is next. -/
structure Configuration (ω : Type) extends Situation ω where
  position : Nat

/-- Where a label stands. -/
def target? (program : List Instruction) (name : String) : Option Nat :=
  program.findIdx? (· == .label name)

section Steps

variable {ω : Type} (env : Environment ω) (program : List Instruction)

/-- **One step.**  There is none at a return, outside the code, and where an instruction cannot be
performed. -/
def step (config : Configuration ω) : Option (Configuration ω) :=
  match program[config.position]? with
  | some (.label _) => some { config with position := config.position + 1 }
  | some (.goto name) => (target? program name).map fun position => { config with position }
  | some (.ifGoto name) =>
    match config.operands with
    | value :: operands =>
      if value = 0 then some ⟨⟨operands, config.memory⟩, config.position + 1⟩
      else (target? program name).map fun position => ⟨⟨operands, config.memory⟩, position⟩
    | [] => none
  | some instruction =>
    (env.perform instruction config.toSituation).map fun situation =>
      ⟨situation, config.position + 1⟩
  | none => none

/-- The instruction that a step performs, if it performs one. -/
def performed (config : Configuration ω) : List Instruction :=
  (program[config.position]?.filter (·.isStraight)).toList

/-- **Runs.**  A number of steps, and the instructions that are performed in them. -/
inductive Runs : Nat → Configuration ω → List Instruction → Configuration ω → Prop
  | refl (config : Configuration ω) : Runs 0 config [] config
  | cons {steps : Nat} {start next stop : Configuration ω} {log : List Instruction} :
      step env program start = some next → Runs steps next log stop →
      Runs (steps + 1) start (performed program start ++ log) stop

end Steps

namespace Runs

variable {ω : Type} {env : Environment ω} {program : List Instruction}
  {start between stop : Configuration ω}

theorem trans {steps more : Nat} {front behind : List Instruction}
    (first : Runs env program steps start front between)
    (second : Runs env program more between behind stop) :
    Runs env program (more + steps) start (front ++ behind) stop := by
  induction first with
  | refl config => exact second
  | cons stepped runs ih =>
      rw [List.append_assoc, ← Nat.add_assoc]
      exact .cons stepped (ih second)

/-- **The machine is deterministic:** a longer run goes on where a shorter one stops. -/
theorem continues {steps more : Nat} {log long : List Instruction} {other : Configuration ω}
    (run : Runs env program steps start log stop)
    (longer : Runs env program more start long other) (fewer : steps ≤ more) :
    ∃ rest, long = log ++ rest ∧ Runs env program (more - steps) stop rest other := by
  induction run generalizing more long with
  | refl config => exact ⟨long, rfl, longer⟩
  | cons stepped runs ih =>
      cases longer with
      | refl => exact absurd fewer (Nat.not_succ_le_zero _)
      | cons stepped' runs' =>
          rw [stepped] at stepped'
          obtain rfl := Option.some.inj stepped'
          obtain ⟨rest, rfl, onward⟩ := ih runs' (Nat.le_of_succ_le_succ fewer)
          rw [Nat.add_sub_add_right]
          exact ⟨rest, (List.append_assoc _ _ _).symm, onward⟩

/-- Where there is no step, every run has ended. -/
theorem le_of_halted {steps more : Nat} {log long : List Instruction} {other : Configuration ω}
    (run : Runs env program steps start log stop) (halted : step env program stop = none)
    (another : Runs env program more start long other) : more ≤ steps := by
  induction run generalizing more long with
  | refl config =>
      cases another with
      | refl => exact Nat.le_refl 0
      | cons stepped runs =>
          rw [halted] at stepped
          exact absurd stepped.symm (Option.some_ne_none _)
  | cons stepped runs ih =>
      cases another with
      | refl => exact Nat.zero_le _
      | cons stepped' runs' =>
          rw [stepped] at stepped'
          obtain rfl := Option.some.inj stepped'
          exact Nat.succ_le_succ (ih halted runs')

end Runs

/-! ## Code at a position -/

/-- Instructions stand in a program from a position on. -/
def CodeAt (program : List Instruction) : Nat → List Instruction → Prop
  | _, [] => True
  | position, instruction :: rest =>
    program[position]? = some instruction ∧ CodeAt program (position + 1) rest

namespace CodeAt

variable {program front behind : List Instruction} {position : Nat}

theorem append_iff : CodeAt program position (front ++ behind) ↔
    CodeAt program position front ∧ CodeAt program (position + front.length) behind := by
  induction front generalizing position with
  | nil => exact ⟨fun code => ⟨trivial, code⟩, And.right⟩
  | cons instruction rest ih =>
      rw [List.cons_append, CodeAt, CodeAt, ih, and_assoc, List.length_cons, Nat.add_assoc,
        Nat.add_comm 1]

/-- A middle part of a program stands where it begins. -/
theorem middle (front code behind : List Instruction) :
    CodeAt (front ++ code ++ behind) front.length code := by
  induction code generalizing front with
  | nil => trivial
  | cons instruction rest ih =>
      refine ⟨?_, ?_⟩
      · rw [List.append_assoc, List.getElem?_append_right (Nat.le_refl _), Nat.sub_self]
        rfl
      · have shifted := ih (front ++ [instruction])
        rwa [List.append_assoc front, List.singleton_append, List.length_append,
          List.length_singleton] at shifted

end CodeAt

/-! ## Straight code -/

section Straight

variable {ω : Type} {env : Environment ω} {program : List Instruction}

/-- An instruction that does not concern control is performed. -/
theorem step_straight (config : Configuration ω) {instruction : Instruction}
    (here : program[config.position]? = some instruction) (straight : instruction.isStraight = true) :
    step env program config = (env.perform instruction config.toSituation).map fun situation =>
      ⟨situation, config.position + 1⟩ := by
  unfold step
  rw [here]
  cases instruction with
  | push | pop | operate | call => rfl
  | label | goto | ifGoto | function | return_ => exact Bool.noConfusion straight

theorem performed_straight (config : Configuration ω) {instruction : Instruction}
    (here : program[config.position]? = some instruction) (straight : instruction.isStraight = true) :
    performed program config = [instruction] := by
  rw [performed, here, Option.filter_some_pos straight]
  rfl

/-- **Straight code** is performed in order. -/
theorem runs_straight {code : List Instruction} (straight : Straight code)
    {position : Nat} (codeAt : CodeAt program position code) {before after : Situation ω}
    (done : env.performAll code before = some after) :
    Runs env program code.length ⟨before, position⟩ code ⟨after, position + code.length⟩ := by
  induction code generalizing position before with
  | nil =>
      obtain rfl := Option.some.inj done
      exact .refl _
  | cons instruction rest ih =>
      obtain ⟨first, others⟩ := List.forall_mem_cons.mp straight
      rw [Environment.performAll_cons] at done
      obtain ⟨between, performedFirst, performedRest⟩ := Option.bind_eq_some_iff.mp done
      have stepped : step env program ⟨before, position⟩ = some ⟨between, position + 1⟩ := by
        rw [step_straight _ codeAt.1 first, performedFirst]
        rfl
      have run := Runs.cons stepped (ih others codeAt.2 performedRest)
      rw [performed_straight ⟨before, position⟩ codeAt.1 first] at run
      rw [List.length_cons, Nat.add_comm rest.length, ← Nat.add_assoc, Nat.add_comm 1]
      exact run

/-- Straight code that cannot be performed is performed up to where it cannot. -/
theorem runs_stuck {code : List Instruction} (straight : Straight code)
    {position : Nat} (codeAt : CodeAt program position code) {before : Situation ω}
    (stuck : env.performAll code before = none) :
    ∃ steps log config, Runs env program steps ⟨before, position⟩ log config ∧
      log <+: code ∧ step env program config = none := by
  induction code generalizing position before with
  | nil => exact absurd stuck (Option.some_ne_none _)
  | cons instruction rest ih =>
      obtain ⟨first, others⟩ := List.forall_mem_cons.mp straight
      have stepped : step env program ⟨before, position⟩ =
          (env.perform instruction before).map fun situation => ⟨situation, position + 1⟩ :=
        step_straight _ codeAt.1 first
      cases performedFirst : env.perform instruction before with
      | none =>
          rw [performedFirst] at stepped
          exact ⟨0, [], _, .refl _, List.nil_prefix, stepped⟩
      | some between =>
          have stuckRest : env.performAll rest between = none := by
            rw [Environment.performAll_cons, performedFirst] at stuck
            exact stuck
          obtain ⟨steps, log, config, run, isPrefix, halted⟩ := ih others codeAt.2 stuckRest
          rw [performedFirst] at stepped
          have longer := Runs.cons stepped run
          rw [performed_straight ⟨before, position⟩ codeAt.1 first] at longer
          exact ⟨steps + 1, _, config, longer, List.cons_prefix_cons.mpr ⟨rfl, isPrefix⟩, halted⟩

/-- An operation puts one operand in the place of those that it takes. -/
theorem Operation.length_compute {operation : Operation} {operands results : List Word}
    (computed : operation.compute operands = some results) :
    results.length + operation.operands = operands.length + 1 := by
  unfold Operation.compute at computed
  split at computed <;> first
    | exact absurd computed.symm (Option.some_ne_none _)
    | (obtain rfl := Option.some.inj computed; rfl)

/-- The operands behind an instruction are those that the walk counts. -/
theorem length_perform {instruction : Instruction} {before after : Situation ω}
    (done : env.perform instruction before = some after) :
    (after.operands.length : Int) = depthBehind before.operands.length instruction := by
  obtain ⟨operands, memory⟩ := before
  cases instruction with
  | push segment index =>
      have pushed : ∃ value, after = ⟨value :: operands, memory⟩ := by
        cases segment <;> exact ⟨_, (Option.some.inj done).symm⟩
      obtain ⟨value, rfl⟩ := pushed
      show ((operands.length + 1 : Nat) : Int) = operands.length - 0 + 1
      omega
  | pop segment index =>
      cases operands with
      | nil => exact absurd done (by simp [Environment.perform])
      | cons value rest =>
          obtain rfl := Option.some.inj done
          show (rest.length : Int) = ((rest.length + 1 : Nat) : Int) - 1 + 0
          omega
  | operate operation =>
      obtain ⟨results, computed, rfl⟩ := Option.map_eq_some_iff.mp done
      have counted := Operation.length_compute computed
      show (results.length : Int) = operands.length - operation.operands + 1
      omega
  | call name count =>
      rw [Environment.perform] at done
      split at done
      · rename_i enough
        obtain ⟨⟨result, other⟩, -, rfl⟩ := Option.map_eq_some_iff.mp done
        show ((operands.drop count).length + 1 : Nat) = (operands.length : Int) - count + 1
        rw [List.length_drop]
        omega
      · exact absurd done.symm (Option.some_ne_none _)
  -- The other instructions concern control and are not performed.
  | label | goto | ifGoto | function | return_ =>
      exact absurd done.symm (Option.some_ne_none _)

/-- **The operands behind code** are those that the walk counts. -/
theorem Walks.length_operands {code : List Instruction} {before after : Situation ω}
    {front depth : Int} (walks : Walks front code depth)
    (counted : (before.operands.length : Int) = front)
    (done : env.performAll code before = some after) : (after.operands.length : Int) = depth := by
  induction code generalizing before front with
  | nil =>
      obtain rfl := Option.some.inj done
      exact counted.trans walks
  | cons instruction rest ih =>
      rw [Environment.performAll_cons] at done
      obtain ⟨between, first, others⟩ := Option.bind_eq_some_iff.mp done
      refine ih walks.2 ?_ others
      rw [length_perform first, counted]

end Straight

/-! ## Supplied code -/

/-- **Supplied code.**  With a number of operands on the stack no instruction lacks one, and at least as
many as the second number are left. -/
def Supplied (before : Nat) : List Instruction → Nat → Prop
  | [], after => after ≤ before
  | instruction :: rest, after =>
    instruction.operands ≤ before ∧
      Supplied (before - instruction.operands + instruction.results) rest after

namespace Supplied

variable {before between after : Nat} {front behind code : List Instruction}

theorem nil : Supplied before [] before := Nat.le_refl before

/-- More operands supply as well. -/
theorem mono {more : Nat} (supplied : Supplied before code after) (enough : before ≤ more) :
    Supplied more code after := by
  induction code generalizing before more with
  | nil => exact Nat.le_trans supplied enough
  | cons instruction rest ih =>
      exact ⟨Nat.le_trans supplied.1 enough, ih supplied.2 (by omega)⟩

theorem append (first : Supplied before front between) (second : Supplied between behind after) :
    Supplied before (front ++ behind) after := by
  induction front generalizing before with
  | nil => exact second.mono first
  | cons instruction rest ih => exact ⟨first.1, ih first.2⟩

variable {ω : Type} {env : Environment ω} {operands below : List Word} {memory : ω}

/-- An operation that has its operands does not touch those below them. -/
theorem compute_above {operation : Operation} (enough : operation.operands ≤ operands.length) :
    operation.compute (operands ++ below) = (operation.compute operands).map (· ++ below) := by
  match operands, enough with
  | _ :: _ :: _, _ => cases operation <;> rfl
  | [_], enough =>
      cases operation with
      | neg | not => rfl
      | add | sub | eq | gt | lt | and | or => exact absurd enough (Nat.not_succ_le_self 1)
  | [], enough => cases operation <;> exact absurd enough (Nat.not_succ_le_zero _)

/-- An instruction that has its operands does not touch those below them. -/
theorem perform_above {instruction : Instruction} (enough : instruction.operands ≤ operands.length) :
    env.perform instruction ⟨operands ++ below, memory⟩ =
      (env.perform instruction ⟨operands, memory⟩).map (·.above below) := by
  cases instruction with
  | push segment index => cases segment <;> rfl
  | pop segment index =>
      cases operands with
      | nil => exact absurd enough (Nat.not_succ_le_zero 0)
      | cons value rest => rfl
  | operate operation =>
      rw [Environment.perform, Environment.perform, compute_above enough]
      cases operation.compute operands <;> rfl
  | call name count =>
      have own : count ≤ operands.length := enough
      have all : count ≤ (operands ++ below).length := by
        rw [List.length_append]
        exact Nat.le_add_right_of_le own
      rw [Environment.perform, Environment.perform, if_pos own, if_pos all,
        List.take_append_of_le_length own, List.drop_append_of_le_length own]
      cases env.call name (operands.take count) memory <;> rfl
  | label | goto | ifGoto | function | return_ => rfl

/-- The operands behind an instruction that has its own. -/
theorem length_le_perform {instruction : Instruction} {situation next : Situation ω}
    (own : instruction.operands ≤ before) (enough : before ≤ situation.operands.length)
    (done : env.perform instruction situation = some next) :
    before - instruction.operands + instruction.results ≤ next.operands.length := by
  have counted := length_perform done
  cases instruction with
  | return_ => exact absurd done.symm (Option.some_ne_none _)
  | push | pop | operate | label | goto | ifGoto | function | call =>
      simp only [depthBehind] at counted
      omega

/-- At least the operands that are left at the least lie on the stack behind supplied code. -/
theorem length_le_performAll {situation last : Situation ω} (supplied : Supplied before code after)
    (enough : before ≤ situation.operands.length)
    (done : env.performAll code situation = some last) : after ≤ last.operands.length := by
  induction code generalizing before situation with
  | nil =>
      obtain rfl := Option.some.inj done
      exact Nat.le_trans supplied enough
  | cons instruction rest ih =>
      rw [Environment.performAll_cons] at done
      obtain ⟨between, first, others⟩ := Option.bind_eq_some_iff.mp done
      exact ih supplied.2 (length_le_perform supplied.1 enough first) others

/-- **Supplied code does not care for operands below its own.** -/
theorem performAll_above (supplied : Supplied before code after) (enough : before ≤ operands.length) :
    env.performAll code ⟨operands ++ below, memory⟩ =
      (env.performAll code ⟨operands, memory⟩).map (·.above below) := by
  induction code generalizing before operands memory with
  | nil => rfl
  | cons instruction rest ih =>
      rw [Environment.performAll_cons, Environment.performAll_cons,
        perform_above (Nat.le_trans supplied.1 enough)]
      cases done : env.perform instruction ⟨operands, memory⟩ with
      | none => rfl
      | some next => exact ih supplied.2 (length_le_perform supplied.1 enough done)

end Supplied

/-! ## Labels -/

/-- A label that stands in a program only once is found where it stands. -/
theorem target?_eq_some {program : List Instruction} {name : String} {position : Nat}
    (once : program.count (.label name) ≤ 1) (here : program[position]? = some (.label name)) :
    target? program name = some position := by
  obtain ⟨bound, there⟩ := List.getElem?_eq_some_iff.mp here
  refine List.findIdx?_eq_some_iff_getElem.mpr ⟨bound, by rw [there, BEq.rfl], ?_⟩
  intro earlier inFront
  rw [Bool.not_eq_true, beq_eq_false_iff_ne]
  intro same
  -- a second occurrence in front of the first would be counted
  have split := congrArg (List.count (.label name)) (List.take_append_drop (earlier + 1) program)
  rw [List.count_append] at split
  have first : 0 < (program.take (earlier + 1)).count (.label name) := by
    refine List.count_pos_iff.mpr (List.mem_iff_getElem?.mpr ⟨earlier, ?_⟩)
    rw [List.getElem?_take_of_lt (Nat.lt_succ_self _), List.getElem?_eq_getElem (by omega), same]
  have second : 0 < (program.drop (earlier + 1)).count (.label name) := by
    refine List.count_pos_iff.mpr (List.mem_iff_getElem?.mpr ⟨position - (earlier + 1), ?_⟩)
    rw [List.getElem?_drop, Nat.add_sub_cancel' inFront, here]
  omega

end JackToolchain.Vm
