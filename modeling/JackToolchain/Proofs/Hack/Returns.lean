import JackToolchain.Proofs.Hack.Simulation

/-!
# Returns

From the return of a function back behind the call.

## Main Definitions

* `Memory.restoreAll` — registers restored in sequence, down from the cell to which `R14` points.
* `Returnable` — the memory in front of a return.
* `Memory.left` — the memory of a return before the registers are restored.

## Main Statements

* `Returnable.restored` — the cells of the frame are still there when the registers are restored.
* `run_returnBlock` — a return leaves the result and the registers of the caller and goes to the return
  address.

## Design Notes

Without arguments the result takes the cell of the return address.  The code keeps the return address in
`R15` before it writes the result, and `Returnable` lets the argument segment begin where the frame
does.
-/

namespace JackToolchain.Hack

open Vm Line

/-! ## Restoring in sequence -/

namespace Memory

/-- The memory with a register restored from the cell below the one to which `R14` points, and `R14`
moved down to it. -/
def restore (memory : Memory) (register : Nat) : Memory :=
  Function.update (Function.update memory 14 (memory 14 - 1#16)) register
    (memory (cell (memory 14 - 1#16)))

/-- The memory with several registers restored, the first one from the highest cell. -/
def restoreAll (memory : Memory) (registers : List Nat) : Memory := registers.foldl restore memory

@[simp] theorem restoreAll_nil (memory : Memory) : memory.restoreAll [] = memory := rfl

@[simp] theorem restoreAll_cons (memory : Memory) (register : Nat) (registers : List Nat) :
    memory.restoreAll (register :: registers) = (memory.restore register).restoreAll registers :=
  rfl

variable {memory : Memory} {q register : Nat}

/-- One less than a positive number. -/
theorem ofNat_succ_sub_one (n : Nat) : BitVec.ofNat 16 (n + 1) - 1#16 = BitVec.ofNat 16 n := by
  rw [BitVec.ofNat_add, BitVec.add_sub_cancel]

/-- `R14` moves down by one. -/
theorem restore_pointer (pointer : memory 14 = BitVec.ofNat 16 (q + 1)) (low : register < 13) :
    memory.restore register 14 = BitVec.ofNat 16 q := by
  rw [restore, Function.update_of_ne (by omega), Function.update_self, pointer,
    ofNat_succ_sub_one]

/-- The register takes what the cell holds. -/
theorem restore_apply_self (pointer : memory 14 = BitVec.ofNat 16 (q + 1)) (room : q < 32768) :
    memory.restore register register = memory q := by
  rw [restore, Function.update_self, pointer, ofNat_succ_sub_one, cell_ofNat room]

/-- No other cell changes. -/
theorem restore_apply_of_ne {address : Nat} (notPointer : address ≠ 14) (other : address ≠ register) :
    memory.restore register address = memory address := by
  rw [restore, Function.update_of_ne other, Function.update_of_ne notPointer]

/-- Cells that are not restored do not change. -/
theorem restoreAll_apply_of_not_mem {registers : List Nat} {address : Nat}
    (notPointer : address ≠ 14) (other : address ∉ registers) :
    memory.restoreAll registers address = memory address := by
  induction registers generalizing memory with
  | nil => rfl
  | cons register rest ih =>
      rw [List.mem_cons, not_or] at other
      rw [restoreAll_cons, ih other.2, restore_apply_of_ne notPointer other.1]

/-- The registers take what the cells hold, from the top down. -/
theorem restoreAll_apply {registers : List Nat} (low : ∀ register ∈ registers, register < 13)
    (distinct : registers.Nodup) (pointer : memory 14 = BitVec.ofNat 16 (q + registers.length))
    (high : 16 ≤ q) (room : q + registers.length ≤ 32768) {i : Nat} (small : i < registers.length) :
    memory.restoreAll registers registers[i] = memory (q + registers.length - 1 - i) := by
  induction registers generalizing memory i with
  | nil => exact absurd small (Nat.not_lt_zero i)
  | cons register rest ih =>
      obtain ⟨lowRegister, lowRest⟩ := List.forall_mem_cons.mp low
      obtain ⟨fresh, distinct⟩ := List.nodup_cons.mp distinct
      rw [List.length_cons, ← Nat.add_assoc] at pointer room
      rw [List.length_cons] at small
      cases i with
      | zero =>
          rw [restoreAll_cons, List.getElem_cons_zero,
            restoreAll_apply_of_not_mem (by omega) fresh, restore_apply_self pointer (by omega)]
          rfl
      | succ i =>
          rw [restoreAll_cons, List.getElem_cons_succ, ih lowRest distinct
            (restore_pointer pointer lowRegister) (by omega) (Nat.lt_of_succ_lt_succ small),
            restore_apply_of_ne (by omega) (by omega), List.length_cons]
          congr 1
          omega

end Memory

/-! ## Returns -/

/-- The lines that keep the end of the frame and the return address. -/
def keepLines : List Line :=
  [symbol "LCL", setD .m, symbol "R14", setM .d, number frameSize, setA (.xMinusY .address), setD .m,
    symbol "R15", setM .d]

/-- The lines that put the result where the first argument was and the stack pointer behind it. -/
def resultLines : List Line :=
  [symbol "ARG", setA .m, setM .d, symbol "ARG", setD (.yPlusOne .memory), symbol "SP", setM .d]

/-- The registers that a return restores, the one that was pushed last first. -/
def restoredRegisters : List String := ["THAT", "THIS", "ARG", "LCL"]

/-- The lines of a return up to its jump. -/
def returnFront : List Line :=
  keepLines ++ (popD ++ (resultLines ++ (restoredRegisters.flatMap restoreBlock ++
    [symbol "R15", setA .m])))

theorem returnBlock_eq : returnBlock = returnFront ++ [jumpAlways] := rfl

/-- The memory with the end of the frame and the return address kept. -/
def Memory.keep (memory : Memory) : Memory :=
  Function.update (Function.update memory 14 (memory 1)) 15
    (memory (cell (memory 1 - BitVec.ofNat 16 frameSize)))

/-- The memory with a result in place of the first argument and nothing else above. -/
def Memory.leave (memory : Memory) (result : Word) : Memory :=
  Function.update (Function.update memory (cell (memory 2)) result) 0 (memory 2 + 1#16)

/-- Only two scratch registers are written at first. -/
theorem Memory.keep_apply {memory : Memory} {address : Nat} (first : address ≠ 14)
    (second : address ≠ 15) : memory.keep address = memory address := by
  rw [keep, Function.update_of_ne second, Function.update_of_ne first]

/-- The memory of a return before the registers are restored. -/
def Memory.left (memory : Memory) : Memory := memory.keep.drop.leave memory.keep.top

/-- **The memory in front of a return**: the local segment begins at `s + 5`, the argument segment at
`t` in front of the frame, and the stack pointer `p` is above the frame. -/
structure Returnable (memory : Memory) (s t p : Nat) : Prop where
  locals : memory 1 = BitVec.ofNat 16 (s + 5)
  arguments : memory 2 = BitVec.ofNat 16 t
  pointer : memory 0 = BitVec.ofNat 16 p
  high : 16 ≤ t
  below : t ≤ s
  above : s + 5 < p
  room : p ≤ 32768

namespace Returnable

variable {memory : Memory} {s t p : Nat} (returnable : Returnable memory s t p)

include returnable

/-- The return address lies at the bottom of the frame. -/
theorem cell_return : cell (memory 1 - BitVec.ofNat 16 frameSize) = s := by
  have := returnable.above
  have := returnable.room
  rw [returnable.locals, frameSize, BitVec.ofNat_add, BitVec.add_sub_cancel, cell_ofNat (by omega)]

/-- The result lies on top of the stack. -/
theorem cell_result : cell (memory 0 - 1#16) = p - 1 := by
  have := returnable.above
  have := returnable.room
  obtain ⟨n, rfl⟩ := Nat.exists_eq_succ_of_ne_zero (by omega : p ≠ 0)
  rw [returnable.pointer, Nat.succ_eq_add_one, Memory.ofNat_succ_sub_one, cell_ofNat (by omega),
    Nat.add_sub_cancel]

theorem cell_arguments : cell (memory 2) = t := by
  have := returnable.below
  have := returnable.above
  have := returnable.room
  rw [returnable.arguments, cell_ofNat (by omega)]

/-- The result is not touched before it is taken. -/
theorem top_keep : memory.keep.top = memory (p - 1) := by
  have := returnable.above
  have := returnable.high
  have := returnable.below
  have pointer : memory.keep 0 = memory 0 := Memory.keep_apply (by decide) (by decide)
  rw [Memory.top, pointer, returnable.cell_result, Memory.keep_apply (by omega) (by omega)]

omit returnable in
/-- The argument segment is not moved before the result is put there. -/
theorem arguments_keep : memory.keep.drop 2 = memory 2 := by
  rw [Memory.drop, Function.update_of_ne (by decide), Memory.keep_apply (by decide) (by decide)]

/-- The stack ends behind the result. -/
theorem left_pointer : memory.left 0 = BitVec.ofNat 16 (t + 1) := by
  rw [Memory.left, Memory.leave, Function.update_self, arguments_keep,
    returnable.arguments, BitVec.ofNat_add]

/-- The result lies where the first argument was. -/
theorem left_result : memory.left t = memory (p - 1) := by
  have := returnable.high
  rw [Memory.left, Memory.leave, Function.update_of_ne (by omega), arguments_keep,
    returnable.cell_arguments, Function.update_self, returnable.top_keep]

/-- Everything but the stack pointer and the first argument is as it was kept. -/
theorem left_apply {address : Nat} (notPointer : address ≠ 0) (other : address ≠ t) :
    memory.left address = memory.keep address := by
  rw [Memory.left, Memory.leave, Function.update_of_ne notPointer, arguments_keep,
    returnable.cell_arguments, Function.update_of_ne other, Memory.drop,
    Function.update_of_ne notPointer]

/-- `R14` points behind the frame. -/
theorem left_frame : memory.left 14 = BitVec.ofNat 16 (s + 5) := by
  have := returnable.high
  rw [returnable.left_apply (by decide) (by omega), Memory.keep,
    Function.update_of_ne (by decide), Function.update_self, returnable.locals]

/-- `R15` holds the return address, also when the result has overwritten it. -/
theorem left_return : memory.left 15 = memory s := by
  have := returnable.high
  rw [returnable.left_apply (by decide) (by omega), Memory.keep, Function.update_self,
    returnable.cell_return]

/-- Every other cell of the stack is unchanged. -/
theorem left_stack {address : Nat} (high : 16 ≤ address) (other : address ≠ t) :
    memory.left address = memory address := by
  rw [returnable.left_apply (by omega) other, Memory.keep_apply (by omega) (by omega)]

/-- The cells of the frame go back to the registers. -/
theorem restored {i : Nat} (small : i < 4) :
    memory.left.restoreAll [4, 3, 2, 1] (4 - i) = memory (s + 4 - i) := by
  have := returnable.high
  have := returnable.below
  have := returnable.above
  have := returnable.room
  have pointer : memory.left 14 = BitVec.ofNat 16 (s + 1 + [4, 3, 2, 1].length) :=
    returnable.left_frame
  have taken := Memory.restoreAll_apply (by decide) (by decide) pointer (by omega)
    (by rw [show [4, 3, 2, 1].length = 4 from rfl]; omega) small
  have register : [4, 3, 2, 1][i] = 4 - i := by
    interval_cases i <;> rfl
  rw [register, returnable.left_stack (by simp; omega) (by simp; omega)] at taken
  rw [taken]
  congr 1

end Returnable

section Returns

variable {values : String → Nat} (standard : Standard values) (store : Store)

include standard

/-- The end of the frame and the return address are kept. -/
theorem effect_keepLines (high : 16 ≤ cell (store.memory 1 - BitVec.ofNat 16 frameSize)) :
    (effect values store keepLines).memory = store.memory.keep := by
  have inStack : 16 ≤ cell (store.memory 1 - 5#16) := high
  have other : cell (store.memory 1 - 5#16) ≠ 14 := by omega
  simp [keepLines, standard.registers, Computation.value, Computation.source, Source.input,
    cell_ofNat, Memory.keep, frameSize, other]

/-- The result goes from `D` to where the first argument was. -/
theorem effect_resultLines (high : 16 ≤ cell (store.memory 2)) :
    (effect values store resultLines).memory = store.memory.leave store.d := by
  have other : 2 ≠ cell (store.memory 2) := by omega
  simp [resultLines, standard.registers, Computation.value, Computation.source, Source.input,
    cell_ofNat, Memory.leave, other]

/-- A register is restored. -/
theorem effect_restoreBlock {register : String} (small : values register < 13)
    (high : 16 ≤ cell (store.memory 14 - 1#16)) :
    (effect values store (restoreBlock register)).memory = store.memory.restore (values register) := by
  have other : cell (store.memory 14 - 1#16) ≠ 14 := by omega
  have fits : values register < 32768 := by omega
  simp [restoreBlock, standard.registers, Computation.value, Computation.source, Source.input,
    cell_ofNat, cell_ofNat fits, Memory.restore, other]

/-- Registers are restored one after the other. -/
theorem effect_restores {registers : List String} {q : Nat}
    (low : ∀ register ∈ registers, values register < 13)
    (pointer : store.memory 14 = BitVec.ofNat 16 (q + registers.length)) (high : 16 ≤ q)
    (room : q + registers.length ≤ 32768) :
    (effect values store (registers.flatMap restoreBlock)).memory =
      store.memory.restoreAll (registers.map values) := by
  induction registers generalizing store with
  | nil => rfl
  | cons register rest ih =>
      obtain ⟨lowRegister, lowRest⟩ := List.forall_mem_cons.mp low
      rw [List.length_cons, ← Nat.add_assoc] at pointer room
      have free : 16 ≤ cell (store.memory 14 - 1#16) := by
        rw [pointer, Memory.ofNat_succ_sub_one, cell_ofNat (by omega)]
        omega
      have restored := effect_restoreBlock standard store lowRegister free
      rw [List.flatMap_cons, effect_append, List.map_cons, Memory.restoreAll_cons,
        ih (effect values store (restoreBlock register)) lowRest
          (by rw [restored]; exact Memory.restore_pointer pointer lowRegister) (by omega), restored]

/-- The result is put in its place. -/
theorem effect_leaveLines {s t p : Nat} (returnable : Returnable store.memory s t p) :
    (effect values store (keepLines ++ (popD ++ resultLines))).memory = store.memory.left := by
  have := returnable.high
  have := returnable.below
  have := returnable.above
  have kept := effect_keepLines standard store (by rw [returnable.cell_return]; omega)
  have free : cell ((effect values store keepLines).memory 0 - 1#16) ≠ 0 := by
    rw [kept, Memory.keep_apply (by decide) (by decide), returnable.cell_result]
    omega
  have popped := effect_popD standard _ free
  rw [kept] at popped
  have high : 16 ≤ cell (store.memory.keep.drop 2) := by
    rw [Returnable.arguments_keep, returnable.cell_arguments]
    exact returnable.high
  rw [effect_append, effect_append, popped]
  exact effect_resultLines standard ⟨_, store.memory.keep.top, store.memory.keep.drop⟩ high

/-- A return leaves the registers restored and in `A` the return address. -/
theorem effect_returnFront {s t p : Nat} (returnable : Returnable store.memory s t p) :
    (effect values store returnFront).memory = store.memory.left.restoreAll [4, 3, 2, 1] ∧
      (effect values store returnFront).a = store.memory s := by
  have := returnable.high
  have := returnable.below
  have := returnable.above
  have := returnable.room
  have left := effect_leaveLines standard store returnable
  have low : ∀ register ∈ restoredRegisters, values register < 13 := by
    simp [restoredRegisters, standard.registers]
  have registers : restoredRegisters.map values = [4, 3, 2, 1] := by
    simp [restoredRegisters, standard.registers]
  -- The frame pointer is counted down from behind the registers that were saved.
  have pointer : (effect values store (keepLines ++ (popD ++ resultLines))).memory 14 =
      BitVec.ofNat 16 (s + 1 + restoredRegisters.length) := by
    rw [left]
    exact returnable.left_frame
  have restores := effect_restores standard _ low pointer (by omega)
    (by rw [show restoredRegisters.length = 4 from rfl]; omega)
  rw [left, registers] at restores
  have split : returnFront = (keepLines ++ (popD ++ resultLines)) ++
      (restoredRegisters.flatMap restoreBlock ++ [symbol "R15", setA .m]) := by
    simp only [returnFront, List.append_assoc]
  rw [split, effect_append, effect_append, effect_cons, act_symbol, effect_cons, act_setA,
    effect_nil]
  refine ⟨restores, ?_⟩
  simp only [Computation.value, Computation.source, Source.input, restores, standard.registers]
  rw [cell_ofNat (by decide), Memory.restoreAll_apply_of_not_mem (by decide) (by decide),
    returnable.left_return]

variable {rom : Nat → Word} {start target : Nat}

/-- **Returns.**  A return leaves the result and the registers of the caller and goes to the return
address. -/
theorem run_returnBlock {s t p : Nat} (loaded : Loaded rom values start returnBlock)
    (returnable : Returnable store.memory s t p)
    (returns : store.memory s = BitVec.ofNat 16 target) (small : target ≤ largestConstant) :
    ∃ after : Store, Reaches rom ⟨store, start⟩ ⟨after, target⟩ ∧
      after.memory = store.memory.left.restoreAll [4, 3, 2, 1] := by
  obtain ⟨memory, points⟩ := effect_returnFront standard store returnable
  rw [returnBlock_eq, loaded_append] at loaded
  have addressable : Addressable values returnFront := by
    simp [returnFront, keepLines, popD, resultLines, restoredRegisters, restoreBlock, setA, setD,
      setM, setAM, standard.registers, frameSize, largestConstant]
  have front := run_straight store loaded.1 addressable rfl
  exact ⟨_, front.trans (run_jump_taken _ loaded.2 rfl (points.trans returns) small rfl), memory⟩

end Returns

end JackToolchain.Hack
