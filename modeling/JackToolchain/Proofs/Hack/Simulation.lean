import Mathlib.Tactic.IntervalCases
import JackToolchain.Proofs.Hack.Execution
import JackToolchain.Proofs.Hack.StackMachine

/-!
# Simulation

The lines that are emitted for a stack-machine instruction do what the instruction means.

## Main Definitions

* `Access.cell?` — the cell to which an access leads.
* `Lowering.Realizes` — the program reaches what an outcome says, apart from the scratch registers.

## Main Statements

* `effect_pushBlock`, `effect_popBlock`, `effect_binaryBlock`, `effect_unaryBlock` — the blocks without
  jumps.
* `run_comparisonBlock` — the block of a comparison, which jumps over one of its two ends.
* `emitted_lines_realize` — every instruction that has a meaning by itself.

## Design Notes

A pop into a segment that a register points to computes the address of the cell first and keeps it in
`R13`, since popping takes both `A` and `D`.  The statement therefore exempts the scratch registers,
and asks that the cells of stack and segments do not lie among the registers.
-/

namespace JackToolchain.Hack

open Vm Line

/-- The cell to which an access leads, given the values of the symbols. -/
def Access.cell? (values : String → Nat) (memory : Memory) (index : Nat) : Access → Option Nat
  | .constant => none
  | .indirect register => some (cell (memory (values register) + BitVec.ofNat 16 index))
  | .direct name => some (values name)

/-! ## The stack -/

section Blocks

variable {values : String → Nat} (standard : Standard values) (store : Store)

include standard

/-- Pushing puts `D` on the stack. -/
theorem effect_pushD (free : cell (store.memory 0) ≠ 0) :
    effect values store pushD = ⟨0, store.d, store.memory.push store.d⟩ := by
  simp [pushD, standard.registers, Computation.value, Computation.source, Source.input, cell_ofNat,
    Memory.push, Function.update_of_ne free.symm]

/-- Popping takes the top of the stack into `D` and leaves its address in `A`. -/
theorem effect_popD (free : cell (store.memory 0 - 1#16) ≠ 0) :
    effect values store popD = ⟨store.memory 0 - 1#16, store.memory.top, store.memory.drop⟩ := by
  simp [popD, standard.registers, Computation.value, Computation.source, Source.input, cell_ofNat,
    Memory.top, Memory.drop, Function.update_of_ne free]

/-- The `i`-th temporary register. -/
theorem Standard.temporary {i : Nat} (small : i < 8) : values s!"R{5 + i}" = 5 + i := by
  interval_cases i <;> exact standard (_, _) (by decide)

/-! ## Segments -/

/-- Where the code looks for a cell is where the cell is. -/
theorem segmentCell?_of_access {unit : String} {segment : Segment} {index : Nat} {access : Access}
    (found : access? unit segment index = some access) :
    segmentCell? (fun index => values s!"{unit}.{index}") store.memory index segment =
      access.cell? values store.memory index := by
  cases segment with
  | constant | local_ | argument | this | that | static_ =>
      obtain rfl := Option.some.inj found
      simp [segmentCell?, Access.cell?, standard.registers]
  | pointer =>
      rw [access?] at found
      split at found
      · rename_i first
        obtain rfl := Option.some.inj found
        simp [segmentCell?, Access.cell?, standard.registers, first]
      · split at found
        · rename_i second
          obtain rfl := Option.some.inj found
          simp [segmentCell?, Access.cell?, standard.registers, second]
        · exact absurd found (by simp)
  | temp =>
      rw [access?] at found
      split at found
      · rename_i small
        obtain rfl := Option.some.inj found
        simp only [segmentCell?, Access.cell?, standard.temporary small]
      · exact absurd found (by simp)

/-- Lines that only load a value into `D` make a push of it. -/
theorem effect_push_of_load {front : List Line} {value : Word}
    (loads : (effect values store front).d = value)
    (keeps : (effect values store front).memory = store.memory)
    (free : cell (store.memory 0) ≠ 0) :
    (effect values store (front ++ pushD)).memory = store.memory.push value := by
  rw [effect_append, effect_pushD standard _ (by rwa [keeps]), keeps, loads]

/-- A push puts the value of the segment on the stack. -/
theorem effect_pushBlock {unit : String} {segment : Segment} {index : Nat} {block : List Line}
    (found : pushBlock? unit segment index = some block) (addressable : Addressable values block)
    (free : cell (store.memory 0) ≠ 0) :
    block.all Line.goesOn = true ∧ (effect values store block).memory =
      store.memory.push
        (fetch (fun index => values s!"{unit}.{index}") store.memory segment index) := by
  rw [pushBlock?] at found
  split at found
  · -- a constant
    rename_i accessed
    split at found
    · obtain rfl := Option.some.inj found
      refine ⟨rfl, ?_⟩
      rw [fetch, segmentCell?_of_access standard store accessed]
      exact effect_push_of_load standard store rfl rfl free
    · exact absurd found (by simp)
  · -- a cell to which a register points
    rename_i register accessed
    obtain rfl := Option.some.inj found
    have small : values register < 32768 :=
      Nat.lt_succ_of_le (addressable (.symbol register) (by simp [symbol]))
    refine ⟨rfl, ?_⟩
    rw [fetch, segmentCell?_of_access standard store accessed]
    refine effect_push_of_load standard store ?_ rfl free
    simp [Computation.value, Computation.source, Source.input, Access.cell?, cell_ofNat small,
      BitVec.add_comm]
  · -- a cell with a fixed address
    rename_i name accessed
    obtain rfl := Option.some.inj found
    have small : values name < 32768 :=
      Nat.lt_succ_of_le (addressable (.symbol name) List.mem_cons_self)
    refine ⟨rfl, ?_⟩
    rw [fetch, segmentCell?_of_access standard store accessed]
    refine effect_push_of_load standard store ?_ rfl free
    simp [Computation.value, Computation.source, Source.input, Access.cell?, cell_ofNat small]
  · exact absurd found (by simp)

/-- A pop takes the top of the stack into the cell of the segment.  The address waits in `R13`. -/
theorem effect_popBlock {unit : String} {segment : Segment} {index : Nat} {block : List Line}
    (found : popBlock? unit segment index = some block) (addressable : Addressable values block)
    (high : 16 ≤ cell (store.memory 0 - 1#16)) :
    block.all Line.goesOn = true ∧
      ∃ address, segmentCell? (fun index => values s!"{unit}.{index}") store.memory index segment =
          some address ∧
        Memory.Agree (Function.update store.memory.drop address store.memory.top)
          (effect values store block).memory := by
  rw [popBlock?] at found
  split at found
  · exact absurd found (by simp)
  · -- a cell to which a register points: its address is computed while the value is still on the stack
    rename_i register accessed
    obtain rfl := Option.some.inj found
    have small : values register < 32768 :=
      Nat.lt_succ_of_le (addressable (.symbol register) (by simp [symbol]))
    refine ⟨rfl, _, segmentCell?_of_access standard store accessed, ?_⟩
    have front : effect values store [number index, setD .a, symbol register,
        setD (.xPlusY .memory), symbol "R13", setM .d] =
        ⟨13#16, store.memory (values register) + BitVec.ofNat 16 index,
          Function.update store.memory 13
            (store.memory (values register) + BitVec.ofNat 16 index)⟩ := by
      simp [standard.registers, Computation.value, Computation.source, Source.input,
        cell_ofNat small, cell_ofNat, BitVec.add_comm]
    -- the write to `R13` hides neither the stack pointer nor the top of the stack
    have free : cell (store.memory 0 - 1#16) ≠ 0 := by omega
    have other : cell (store.memory 0 - 1#16) ≠ 13 := by omega
    rw [effect_append, effect_append, front, effect_popD standard _ (by simpa using free)]
    simp [standard.registers, Computation.value, Computation.source, Source.input, cell_ofNat,
      Memory.drop, Memory.top, other]
    exact ((Memory.agree_update _ (by decide) _).update _ _).update _ _
  · -- a cell with a fixed address
    rename_i name accessed
    obtain rfl := Option.some.inj found
    have small : values name < 32768 :=
      Nat.lt_succ_of_le (addressable (.symbol name) (by simp [symbol]))
    refine ⟨rfl, _, segmentCell?_of_access standard store accessed, ?_⟩
    rw [effect_append, effect_popD standard _ (by omega)]
    simp [Computation.value, cell_ofNat small, Memory.Agree.refl]
  · exact absurd found (by simp)

/-! ## Operations -/

/-- A binary operation combines the two topmost values, the upper one in `D`. -/
theorem effect_binaryBlock {result : Computation} (reads : result.source = .memory)
    (free : cell (store.memory 0 - 1#16) ≠ 0) :
    (effect values store (binaryBlock result)).memory =
      store.memory.combine fun x y => result.value y x := by
  rw [binaryBlock, effect_append, effect_popD standard store free, effect_cons, act_setA,
    effect_cons, act_setM, effect_nil, reads]
  rfl

/-- A unary operation replaces the top. -/
theorem effect_unaryBlock {result : Computation} (reads : result.source = .memory) :
    (effect values store (unaryBlock result)).memory =
      store.memory.replaceTop (result.value store.d store.memory.top) := by
  rw [unaryBlock, effect_cons, act_symbol, effect_cons, act_setA, effect_cons, act_setM, effect_nil,
    reads, standard.registers.1]
  rfl

/-- The difference of the operands of a comparison in `D`, and in `A` where to go if it fails. -/
def differenceLines (n : Nat) : List Line :=
  popD ++ [setA (.yMinusOne .address), setD (.yMinusX .memory), symbol (comparisonFails n)]

/-- What a comparison that holds goes on with. -/
def holdsLines (n : Nat) : List Line :=
  [symbol "SP", setA (.yMinusOne .memory), setM .minusOne, symbol (comparisonEnds n)]

/-- What a comparison that fails goes on with. -/
def failsLines (n : Nat) : List Line :=
  [.label (comparisonFails n), symbol "SP", setA (.yMinusOne .memory), setM .zero,
    .label (comparisonEnds n)]

omit standard in
theorem size_differenceLines (n : Nat) : size (differenceLines n) = 6 := by
  simp [differenceLines, popD, setA, setD, setAM]

omit standard in
theorem size_holdsLines (n : Nat) : size (holdsLines n) = 4 := by
  simp [holdsLines, setA, setM]

omit standard in
theorem size_failsLines (n : Nat) : size (failsLines n) = 3 := by
  simp [failsLines, setA, setM]

omit standard in
theorem comparisonBlock_eq (n : Nat) (inverse : Jump) :
    comparisonBlock n inverse =
      differenceLines n ++
        ([jumpIf inverse] ++ (holdsLines n ++ ([jumpAlways] ++ failsLines n))) := by
  simp only [comparisonBlock, differenceLines, holdsLines, failsLines, List.append_assoc,
    List.cons_append, List.nil_append]

/-- The difference is that of the lower and the upper operand. -/
theorem effect_differenceLines {n : Nat} (free : cell (store.memory 0 - 1#16) ≠ 0) :
    effect values store (differenceLines n) =
      ⟨BitVec.ofNat 16 (values (comparisonFails n)), store.memory.drop.top - store.memory.top,
        store.memory.drop⟩ := by
  rw [differenceLines, effect_append, effect_popD standard store free, effect_cons, act_setA,
    effect_cons, act_setD, effect_cons, act_symbol, effect_nil]
  rfl

/-- A comparison that holds leaves a word of ones, and in `A` where to go. -/
theorem effect_holdsLines {n : Nat} :
    effect values store (holdsLines n) =
      ⟨BitVec.ofNat 16 (values (comparisonEnds n)), store.d, store.memory.replaceTop (-1)⟩ := by
  rw [holdsLines, effect_cons, act_symbol, effect_cons, act_setA, effect_cons, act_setM,
    effect_cons, act_symbol, effect_nil, standard.registers.1]
  rfl

/-- A comparison that fails leaves a zero. -/
theorem effect_failsLines {n : Nat} :
    (effect values store (failsLines n)).memory = store.memory.replaceTop 0 := by
  rw [failsLines, effect_cons, act_label, effect_cons, act_symbol, effect_cons, act_setA,
    effect_cons, act_setM, effect_cons, act_label, effect_nil, standard.registers.1]
  rfl

/-- A comparison combines the two topmost values to a truth value.  It fails exactly when its jump is
taken on their difference. -/
theorem run_comparisonBlock {n : Nat} {inverse : Jump} {rom : Nat → Word} {start : Nat}
    (loaded : Loaded rom values start (comparisonBlock n inverse))
    (addressable : Addressable values (comparisonBlock n inverse))
    (free : cell (store.memory 0 - 1#16) ≠ 0) :
    ∃ after : Store,
      Reaches rom ⟨store, start⟩ ⟨after, start + size (comparisonBlock n inverse)⟩ ∧
        after.memory = store.memory.combine fun x y => truth (!inverse.taken (x - y)) := by
  have total : size (comparisonBlock n inverse) = 15 := by
    simp [comparisonBlock, popD, setA, setD, setM, setAM]
  rw [comparisonBlock_eq, loaded_append] at loaded
  rw [comparisonBlock_eq, addressable_append] at addressable
  obtain ⟨loadedDifference, loaded⟩ := loaded
  obtain ⟨loadedJump, loaded⟩ := loaded_append.mp loaded
  obtain ⟨loadedHolds, loaded⟩ := loaded_append.mp loaded
  obtain ⟨loadedSkip, loadedFails⟩ := loaded_append.mp loaded
  obtain ⟨addressableDifference, addressable⟩ := addressable
  obtain ⟨addressableHolds, addressableFails⟩ :=
    addressable_append.mp (addressable_append.mp addressable).2
  replace addressableFails := (addressable_append.mp addressableFails).2
  -- where the two labels lie
  have failsAt : values (comparisonFails n) = start + 12 := by
    rw [loadedFails.1, size_differenceLines, size_holdsLines]
    rfl
  have endsAt : values (comparisonEnds n) = start + 15 := by
    rw [loadedFails.2.2.2.2.1, size_differenceLines, size_holdsLines]
    rfl
  have failsSmall : values (comparisonFails n) ≤ largestConstant :=
    addressableDifference (.symbol (comparisonFails n)) (by simp [differenceLines, symbol])
  have endsSmall : values (comparisonEnds n) ≤ largestConstant :=
    addressableHolds (.symbol (comparisonEnds n)) (by simp [holdsLines, symbol])
  have front := run_straight store loadedDifference addressableDifference rfl
  rw [effect_differenceLines standard store free] at front
  rw [total]
  cases verdict : inverse.taken (store.memory.drop.top - store.memory.top) with
  | true =>
      -- the jump skips the end that stores true
      have jump := run_jumpIf_taken _ store.memory.drop loadedJump failsSmall verdict
      have back := run_straight ⟨BitVec.ofNat 16 (values (comparisonFails n)),
        store.memory.drop.top - store.memory.top, store.memory.drop⟩ loadedFails addressableFails rfl
      rw [← loadedFails.1, size_failsLines, failsAt] at back
      rw [failsAt] at jump front
      refine ⟨_, (front.trans jump).trans back, ?_⟩
      rw [effect_failsLines standard, Memory.combine, verdict]
      rfl
  | false =>
      -- the end that stores true jumps over the other one
      have jump := run_jumpIf_not_taken (BitVec.ofNat 16 (values (comparisonFails n))) _
        store.memory.drop loadedJump verdict
      have back := run_straight ⟨BitVec.ofNat 16 (values (comparisonFails n)),
        store.memory.drop.top - store.memory.top, store.memory.drop⟩ loadedHolds addressableHolds rfl
      rw [effect_holdsLines standard] at back
      have skip := run_jumpAlways (store.memory.drop.top - store.memory.top)
        (store.memory.drop.replaceTop (-1)) loadedSkip endsSmall
      rw [endsAt] at skip back
      refine ⟨_, ((front.trans jump).trans back).trans skip, ?_⟩
      rw [Memory.combine, verdict]
      rfl

end Blocks

/-! ## Instructions -/

/-- The cells of the static segment of the unit that is being lowered. -/
def Lowering.statics (lowering : Lowering) (values : String → Nat) (index : Nat) : Nat :=
  values s!"{lowering.unit}.{index}"

/-- Where an outcome lets the machine go on: behind the block, or at a label of the function. -/
def Lowering.destination (lowering : Lowering) (values : String → Nat) (behind : Nat)
    (outcome : Outcome) : Nat :=
  match outcome.target with
  | none => behind
  | some name => values (lowering.qualify name)

/-- **Realization.**  From a machine on, the program reaches one that goes on where the outcome says and
has its memory outside the scratch registers. -/
def Lowering.Realizes (lowering : Lowering) (rom : Nat → Word) (values : String → Nat)
    (before : Machine) (behind : Nat) (outcome : Outcome) : Prop :=
  ∃ after : Machine, Reaches rom before after ∧
    after.counter = lowering.destination values behind outcome ∧
      outcome.memory.Agree after.memory

section Instructions

variable {lowering : Lowering} {rom : Nat → Word} {values : String → Nat} {start : Nat}
  {block : List Line} (store : Store)

/-- A straight block realizes what it does to the memory. -/
theorem realizes_straight {memory : Memory} (loaded : Loaded rom values start block)
    (addressable : Addressable values block) (straight : block.all Line.goesOn = true)
    (agree : memory.Agree (effect values store block).memory) :
    lowering.Realizes rom values ⟨store, start⟩ (start + size block) { memory } :=
  ⟨_, run_straight store loaded addressable straight, rfl, agree⟩

variable (standard : Standard values)

include standard

/-- A binary operation on the operands in the order in which they were pushed. -/
theorem realizes_binary {result : Computation} (f : Word → Word → Word)
    (reads : result.source = .memory) (same : ∀ x y, result.value y x = f x y)
    (loaded : Loaded rom values start (binaryBlock result))
    (addressable : Addressable values (binaryBlock result))
    (free : cell (store.memory 0 - 1#16) ≠ 0) :
    lowering.Realizes rom values ⟨store, start⟩ (start + size (binaryBlock result))
      { memory := store.memory.combine f } := by
  refine realizes_straight store loaded addressable rfl ?_
  simp only [effect_binaryBlock standard store reads free, same]
  exact Memory.Agree.refl _

/-- A unary operation on the top of the stack. -/
theorem realizes_unary {result : Computation} (f : Word → Word) (reads : result.source = .memory)
    (same : ∀ x y, result.value x y = f y)
    (loaded : Loaded rom values start (unaryBlock result))
    (addressable : Addressable values (unaryBlock result)) :
    lowering.Realizes rom values ⟨store, start⟩ (start + size (unaryBlock result))
      { memory := store.memory.replaceTop (f store.memory.top) } := by
  refine realizes_straight store loaded addressable rfl ?_
  simp only [effect_unaryBlock standard store reads, same]
  exact Memory.Agree.refl _

/-- A comparison whose jump is taken exactly when its verdict is negative. -/
theorem realizes_comparison {n : Nat} {inverse : Jump} (verdict : Word → Bool)
    (opposite : ∀ difference, (!inverse.taken difference) = verdict difference)
    (loaded : Loaded rom values start (comparisonBlock n inverse))
    (addressable : Addressable values (comparisonBlock n inverse))
    (free : cell (store.memory 0 - 1#16) ≠ 0) :
    lowering.Realizes rom values ⟨store, start⟩ (start + size (comparisonBlock n inverse))
      { memory := store.memory.combine fun x y => truth (verdict (x - y)) } := by
  obtain ⟨after, ran, combined⟩ := run_comparisonBlock standard store loaded addressable free
  refine ⟨_, ran, rfl, ?_⟩
  simp only [combined, opposite]
  exact Memory.Agree.refl _

/-- An operation does on the stack what it means. -/
theorem realizes_operate {n : Nat} (operation : Operation)
    (loaded : Loaded rom values start (operationBlock n operation))
    (addressable : Addressable values (operationBlock n operation))
    (free : cell (store.memory 0 - 1#16) ≠ 0) :
    lowering.Realizes rom values ⟨store, start⟩ (start + size (operationBlock n operation))
      { memory := store.memory.operate operation } := by
  cases operation with
  | add =>
      exact realizes_binary store standard (fun x y => x + y) rfl (fun x y => BitVec.add_comm y x)
        loaded addressable free
  | sub =>
      exact realizes_binary store standard (fun x y => x - y) rfl (fun _ _ => rfl)
        loaded addressable free
  | and =>
      exact realizes_binary store standard (fun x y => x &&& y) rfl
        (fun x y => BitVec.and_comm y x) loaded addressable free
  | or =>
      exact realizes_binary store standard (fun x y => x ||| y) rfl
        (fun x y => BitVec.or_comm y x) loaded addressable free
  | neg =>
      exact realizes_unary store standard (fun y => -y) rfl (fun _ _ => rfl) loaded addressable
  | not =>
      exact realizes_unary store standard (fun y => ~~~y) rfl (fun _ _ => rfl) loaded addressable
  -- The blocks of comparisons jump if the comparison fails, so each is told from the jump that denies it.
  | eq =>
      apply realizes_comparison store standard (fun difference => difference.toInt = 0) _
        loaded addressable free
      intro difference
      rw [Jump.taken, ← decide_not, decide_eq_decide, Decidable.not_not]
  | gt =>
      apply realizes_comparison store standard (fun difference => 0 < difference.toInt) _
        loaded addressable free
      intro difference
      rw [Jump.taken, ← decide_not, decide_eq_decide, Int.not_le]
  | lt =>
      apply realizes_comparison store standard (fun difference => difference.toInt < 0) _
        loaded addressable free
      intro difference
      rw [Jump.taken, ← decide_not, decide_eq_decide, Int.not_le]

/-- A conditional jump takes the top of the stack and looks at it. -/
theorem realizes_ifGoto {name : String}
    (loaded : Loaded rom values start
      (popD ++ [symbol (lowering.qualify name), jumpIf .ifNotZero]))
    (addressable : Addressable values
      (popD ++ [symbol (lowering.qualify name), jumpIf .ifNotZero]))
    (free : cell (store.memory 0 - 1#16) ≠ 0) :
    lowering.Realizes rom values ⟨store, start⟩
      (start + size (popD ++ [symbol (lowering.qualify name), jumpIf .ifNotZero]))
      { memory := store.memory.drop
        target := if store.memory.top = 0 then none else some name } := by
  have split : popD ++ [symbol (lowering.qualify name), jumpIf .ifNotZero] =
      (popD ++ [symbol (lowering.qualify name)]) ++ [jumpIf .ifNotZero] := by
    rw [List.append_assoc, List.singleton_append]
  rw [split, loaded_append] at loaded
  rw [split, addressable_append] at addressable
  have front := run_straight store loaded.1 addressable.1 rfl
  rw [effect_append, effect_popD standard store free, effect_cons, act_symbol, effect_nil] at front
  by_cases zero : store.memory.top = 0
  · have passed : Jump.ifNotZero.taken store.memory.top = false := by
      rw [zero]
      rfl
    rw [if_pos zero]
    refine ⟨_, front.trans (run_jumpIf_not_taken _ _ _ loaded.2 passed), ?_, Memory.Agree.refl _⟩
    rw [split, size_append, ← Nat.add_assoc]
    rfl
  · have taken : Jump.ifNotZero.taken store.memory.top = true := by
      apply decide_eq_true
      intro isZero
      apply zero
      apply BitVec.eq_of_toInt_eq
      rw [isZero]
      rfl
    have small : values (lowering.qualify name) ≤ largestConstant :=
      addressable.1 (.symbol (lowering.qualify name)) (by simp [symbol])
    rw [if_neg zero]
    exact ⟨_, front.trans (run_jumpIf_taken _ _ loaded.2 small taken), rfl, Memory.Agree.refl _⟩

omit standard in
/-- A jump without a condition leaves the memory alone. -/
theorem realizes_goto {name : String}
    (loaded : Loaded rom values start ([symbol (lowering.qualify name)] ++ [jumpAlways]))
    (addressable : Addressable values ([symbol (lowering.qualify name)] ++ [jumpAlways]))
    (behind : Nat) :
    lowering.Realizes rom values ⟨store, start⟩ behind
      { memory := store.memory, target := some name } := by
  rw [loaded_append] at loaded
  rw [addressable_append] at addressable
  have front := run_straight store loaded.1 addressable.1 rfl
  have small : values (lowering.qualify name) ≤ largestConstant :=
    addressable.1 (.symbol (lowering.qualify name)) List.mem_cons_self
  exact ⟨_, front.trans (run_jumpAlways store.d store.memory loaded.2 small), rfl,
    Memory.Agree.refl _⟩

end Instructions

/-! ## The simulation -/

/-- Whether an instruction has a meaning only together with others. -/
def isLinkage : Instruction → Bool
  | .call .. | .function .. | .return_ => true
  | _ => false

/-- **The simulation.**  Let the lines of an accepted instruction stand in memory, with everything they
load within reach of an address instruction, and let the cells of the stack and of the segments that it
touches lie in the common memory.  Then the machine runs from the first line to the end of the block,
or to the label where the instruction passes control, and every cell but the scratch registers has the
content that the instruction means. -/
theorem emitted_lines_realize {lowering : Lowering} {instruction : Instruction}
    {lines : List Line} {rom : Nat → Word} {values : String → Nat} {start : Nat} (store : Store)
    (alone : isLinkage instruction = false)
    (emits : lowering.Emits instruction lines)
    (standard : Standard values)
    (addressable : Addressable values lines)
    (loaded : Loaded rom values start lines)
    (inRange : ∀ address ∈ touched (lowering.statics values) store.memory instruction,
      16 ≤ address ∧ address ≤ 32767) :
    ∃ outcome, outcome? (lowering.statics values) store.memory instruction = some outcome ∧
      lowering.Realizes rom values ⟨store, start⟩ (start + size lines) outcome := by
  obtain ⟨block, found, rfl⟩ := emits.eq_block
  replace loaded := Lowering.loaded_of_notes loaded
  replace addressable := (addressable_append.mp addressable).2
  rw [size_append, Lowering.size_notes, Nat.zero_add]
  cases instruction with
  | push segment index =>
      have high := (inRange (cell (store.memory 0)) (by simp [touched, stackCells])).1
      obtain ⟨straight, pushed⟩ := effect_pushBlock standard store found addressable (by omega)
      refine ⟨_, rfl, realizes_straight store loaded addressable straight ?_⟩
      rw [pushed]
      exact Memory.Agree.refl _
  | pop segment index =>
      have high := (inRange (cell (store.memory 0 - 1#16)) (by simp [touched, stackCells])).1
      obtain ⟨straight, address, isCell, agree⟩ :=
        effect_popBlock standard store found addressable high
      refine ⟨{ memory := Function.update store.memory.drop address store.memory.top }, ?_,
        realizes_straight store loaded addressable straight agree⟩
      have here : segmentCell? (lowering.statics values) store.memory index segment =
        some address := isCell
      rw [outcome?, here]
  | operate operation =>
      obtain rfl := Option.some.inj found
      have high := (inRange (cell (store.memory 0 - 1#16))
        (by cases operation <;> simp [touched, stackCells])).1
      exact ⟨_, rfl, realizes_operate store standard operation loaded addressable (by omega)⟩
  | label name =>
      obtain rfl := Option.some.inj found
      exact ⟨_, rfl, realizes_straight store loaded addressable rfl (Memory.Agree.refl _)⟩
  | goto name =>
      obtain rfl := Option.some.inj found
      exact ⟨_, rfl, realizes_goto store loaded addressable _⟩
  | ifGoto name =>
      obtain rfl := Option.some.inj found
      have high := (inRange (cell (store.memory 0 - 1#16)) (by simp [touched, stackCells])).1
      exact ⟨_, rfl, realizes_ifGoto store standard loaded addressable (by omega)⟩
  | call | function | return_ => exact absurd alone (by simp [isLinkage])

/-- The values of the predefined symbols, and of the labels of the first comparison. -/
private def comparisonValues (name : String) : Nat :=
  ((predefinedList ++ [(comparisonFails 0, 12), (comparisonEnds 0, 15)]).lookup name).getD 0

/-- The lines of the first comparison of a program, with their comment. -/
private def comparisonLines : List Line := .comment "lt" :: comparisonBlock 0 .ifNotNegative

/-- A memory with 3 below 5 on the stack. -/
private def comparisonMemory : Memory :=
  Function.update (Function.update (Function.update (fun _ => 0) 0 258) 256 3) 257 5

/-- Three is less than five. -/
theorem less_than_realized :
    ∃ after : Machine,
      Reaches (romOf (words comparisonValues comparisonLines)) ⟨⟨0, 0, comparisonMemory⟩, 0⟩ after ∧
        after.counter = 15 ∧ after.memory 256 = -1 ∧ after.memory 0 = 257 := by
  have emits : ({ annotate := true } : Lowering).Emits (.operate .lt) comparisonLines :=
    ⟨1, _, rfl, rfl⟩
  have loaded : Loaded (romOf (words comparisonValues comparisonLines)) comparisonValues 0
      comparisonLines := by
    have placed : Placed comparisonValues 0 comparisonLines := by decide
    have loaded := loaded_romOf [] [] placed
    rwa [List.append_nil, List.nil_append] at loaded
  obtain ⟨outcome, means, after, ran, counter, agree⟩ :=
    emitted_lines_realize ⟨0, 0, comparisonMemory⟩ rfl emits (by decide)
      (by decide) loaded
      (by decide)
  obtain rfl := Option.some.inj means
  refine ⟨after, ran, counter, ?_, ?_⟩
  · rw [← agree 256 (by decide)]
    decide
  · rw [← agree 0 (by decide)]
    decide

end JackToolchain.Hack
