import JackToolchain.Proofs.Hack.Simulation

/-!
# Calls

From a call over the header of the function to the body of the function.

## Main Definitions

* `Memory.pushAll` — several values pushed in sequence; `Memory.saveAll` — the contents of several cells.
* `frame` — what a call saves: the return address and the segment addresses of the caller.
* `Memory.link` — the segment addresses of the function that is called.
* `Memory.enter` — the memory in which the body of a function begins.
* `Entered` — what the body finds there.

## Main Statements

* `steps_callBlock` — a call runs through its lines and jumps to the function.
* `run_callBlock` — it does so with the frame on the stack and the segments linked.
* `run_functionBlock` — a header puts zeros into the local variables.
* `entered_enter` — call and header together make what the body finds.

## Design Notes

The frame and the local variables are pushed one value after the other, so all facts about cells come
from `Memory.pushAll`.  The stack is assumed to end within the memory; the stack pointer does not wrap.
-/

namespace JackToolchain.Hack

open Vm Line

/-! ## Pushing in sequence -/

namespace Memory

/-- The memory with several values more on the stack, the first one lowest. -/
def pushAll (memory : Memory) (values : List Word) : Memory := values.foldl push memory

@[simp] theorem pushAll_nil (memory : Memory) : memory.pushAll [] = memory := rfl

@[simp] theorem pushAll_cons (memory : Memory) (value : Word) (values : List Word) :
    memory.pushAll (value :: values) = (memory.push value).pushAll values := rfl

variable {memory : Memory} {s : Nat}

/-- The stack pointer moves up by one. -/
theorem push_pointer (pointer : memory 0 = BitVec.ofNat 16 s) (value : Word) :
    memory.push value 0 = BitVec.ofNat 16 (s + 1) := by
  rw [push, Function.update_self, pointer, BitVec.ofNat_add]

/-- The value lies in what was the first free cell. -/
theorem push_apply_self (pointer : memory 0 = BitVec.ofNat 16 s) (positive : 0 < s)
    (room : s < 32768) (value : Word) : memory.push value s = value := by
  rw [push, Function.update_of_ne (Nat.ne_of_gt positive), pointer, cell_ofNat room,
    Function.update_self]

/-- No other cell changes. -/
theorem push_apply_of_ne (pointer : memory 0 = BitVec.ofNat 16 s) (room : s < 32768) (value : Word)
    {address : Nat} (notPointer : address ≠ 0) (other : address ≠ s) :
    memory.push value address = memory address := by
  rw [push, Function.update_of_ne notPointer, pointer, cell_ofNat room,
    Function.update_of_ne other]

/-- The stack pointer moves up by the number of values. -/
theorem pushAll_pointer (pointer : memory 0 = BitVec.ofNat 16 s) (values : List Word) :
    memory.pushAll values 0 = BitVec.ofNat 16 (s + values.length) := by
  induction values generalizing memory s with
  | nil => exact pointer
  | cons value rest ih =>
      rw [pushAll_cons, ih (push_pointer pointer value), List.length_cons, Nat.add_right_comm,
        Nat.add_assoc]

/-- Cells outside the stretch that is filled do not change. -/
theorem pushAll_apply_of_outside (pointer : memory 0 = BitVec.ofNat 16 s) {values : List Word}
    (room : s + values.length ≤ 32768) {address : Nat} (notPointer : address ≠ 0)
    (outside : address < s ∨ s + values.length ≤ address) :
    memory.pushAll values address = memory address := by
  induction values generalizing memory s with
  | nil => rfl
  | cons value rest ih =>
      rw [List.length_cons] at room outside
      rw [pushAll_cons, ih (push_pointer pointer value) (by omega) (by omega),
        push_apply_of_ne pointer (by omega) value notPointer (by omega)]

/-- The values lie one above the other. -/
theorem pushAll_apply (pointer : memory 0 = BitVec.ofNat 16 s) (positive : 0 < s)
    {values : List Word} (room : s + values.length ≤ 32768) {i : Nat} (small : i < values.length) :
    memory.pushAll values (s + i) = values[i] := by
  induction values generalizing memory s i with
  | nil => exact absurd small (Nat.not_lt_zero i)
  | cons value rest ih =>
      rw [List.length_cons] at room small
      cases i with
      | zero =>
          rw [pushAll_cons, pushAll_apply_of_outside (push_pointer pointer value) (by omega)
            (by omega) (by omega), Nat.add_zero, push_apply_self pointer positive (by omega)]
          rfl
      | succ i =>
          have next := ih (push_pointer pointer value) (by omega) (by omega)
            (Nat.lt_of_succ_lt_succ small)
          rwa [Nat.add_assoc, Nat.add_comm 1 i] at next

/-- The memory with the contents of several cells more on the stack, each as it is found. -/
def saveAll (memory : Memory) (addresses : List Nat) : Memory :=
  addresses.foldl (fun memory address => memory.push (memory address)) memory

@[simp] theorem saveAll_nil (memory : Memory) : memory.saveAll [] = memory := rfl

@[simp] theorem saveAll_cons (memory : Memory) (address : Nat) (addresses : List Nat) :
    memory.saveAll (address :: addresses) = (memory.push (memory address)).saveAll addresses := rfl

/-- Below the stack each cell is found as it was at the beginning. -/
theorem saveAll_eq_pushAll (pointer : memory 0 = BitVec.ofNat 16 s) {addresses : List Nat}
    (below : ∀ address ∈ addresses, 0 < address ∧ address < s)
    (room : s + addresses.length ≤ 32768) :
    memory.saveAll addresses = memory.pushAll (addresses.map memory) := by
  induction addresses generalizing memory s with
  | nil => rfl
  | cons address rest ih =>
      obtain ⟨-, belowRest⟩ := List.forall_mem_cons.mp below
      rw [List.length_cons] at room
      have belowNext : ∀ other ∈ rest, 0 < other ∧ other < s + 1 := fun other member =>
        ⟨(belowRest other member).1, Nat.lt_succ_of_lt (belowRest other member).2⟩
      rw [saveAll_cons, List.map_cons, pushAll_cons, ih (push_pointer pointer _) belowNext (by omega)]
      congr 1
      -- the other cells lie below the stack, where the push changes nothing
      apply List.map_congr_left
      intro other member
      have lowOther := belowRest other member
      exact push_apply_of_ne pointer (by omega) _ (by omega) (by omega)

end Memory

/-! ## Calls -/

/-- The registers that a call saves, in the order in which they are pushed. -/
def savedRegisters : List String := ["LCL", "ARG", "THIS", "THAT"]

/-- The lines that set the argument and local segments of the function that is called. -/
def linkLines (argumentCount : Nat) : List Line :=
  [symbol "SP", setD .m, number (frameSize + argumentCount), setD (.xMinusY .address),
    symbol "ARG", setM .d, symbol "SP", setD .m, symbol "LCL", setM .d]

/-- The memory with the argument segment below the frame and the local segment above it. -/
def Memory.link (memory : Memory) (argumentCount : Nat) : Memory :=
  Function.update
    (Function.update memory 2 (memory 0 - BitVec.ofNat 16 (frameSize + argumentCount))) 1 (memory 0)

/-- The lines of a call up to its jump. -/
def callFront (n : Nat) (name : String) (argumentCount : Nat) : List Line :=
  ([symbol (returnAddress n), setD .a] ++ pushD) ++
    (savedRegisters.flatMap saveBlock ++ (linkLines argumentCount ++ [symbol name]))

theorem callBlock_eq (n : Nat) (name : String) (argumentCount : Nat) :
    callBlock n name argumentCount =
      callFront n name argumentCount ++ ([jumpAlways] ++ [Line.label (returnAddress n)]) := by
  simp only [callBlock, callFront, linkLines, savedRegisters, List.append_assoc, List.cons_append,
    List.nil_append]

/-- The frame of a call: the return address and the segment addresses of the caller. -/
def frame (values : String → Nat) (memory : Memory) (n : Nat) : List Word :=
  [BitVec.ofNat 16 (values (returnAddress n)), memory 1, memory 2, memory 3, memory 4]

section Calls

variable {values : String → Nat} (standard : Standard values) (store : Store) {s : Nat}

include standard

/-- A register is saved on the stack. -/
theorem effect_saveBlock {register : String} (small : values register < 32768)
    (free : cell (store.memory 0) ≠ 0) :
    (effect values store (saveBlock register)).memory =
      store.memory.push (store.memory (values register)) := by
  refine effect_push_of_load standard store ?_ rfl free
  simp [Computation.value, Computation.source, Source.input, cell_ofNat small]

/-- Registers are saved one after the other. -/
theorem effect_saves {registers : List String} (small : ∀ register ∈ registers, values register < 32768)
    (pointer : store.memory 0 = BitVec.ofNat 16 s) (positive : 0 < s)
    (room : s + registers.length ≤ 32768) :
    (effect values store (registers.flatMap saveBlock)).memory =
      store.memory.saveAll (registers.map values) := by
  induction registers generalizing store s with
  | nil => rfl
  | cons register rest ih =>
      obtain ⟨smallRegister, smallRest⟩ := List.forall_mem_cons.mp small
      rw [List.length_cons] at room
      have free : cell (store.memory 0) ≠ 0 := by
        rw [pointer, cell_ofNat (by omega)]
        omega
      have saved := effect_saveBlock standard store smallRegister free
      rw [List.flatMap_cons, effect_append, List.map_cons, Memory.saveAll_cons,
        ih (effect values store (saveBlock register)) smallRest
          (by rw [saved]; exact Memory.push_pointer pointer _) (by omega) (by omega), saved]

/-- The segments of the function that is called are set. -/
theorem effect_linkLines (argumentCount : Nat) :
    (effect values store (linkLines argumentCount)).memory = store.memory.link argumentCount := by
  simp [linkLines, standard.registers, Computation.value, Computation.source, Source.input,
    cell_ofNat, Memory.link]

/-- A call saves the return address and the four segment registers, wherever the stack is. -/
theorem effect_callFront {n argumentCount : Nat} {name : String}
    (pointer : store.memory 0 = BitVec.ofNat 16 s) (positive : 0 < s) (room : s + 5 ≤ 32768) :
    (effect values store (callFront n name argumentCount)).memory =
      ((store.memory.push (BitVec.ofNat 16 (values (returnAddress n)))).saveAll [1, 2, 3, 4]).link
        argumentCount := by
  have free : cell (store.memory 0) ≠ 0 := by
    rw [pointer, cell_ofNat (by omega)]
    omega
  have pushed := effect_push_of_load standard store
    (rfl : (effect values store [symbol (returnAddress n), setD .a]).d = _) rfl free
  have registers : savedRegisters.map values = [1, 2, 3, 4] := by
    simp [savedRegisters, standard.registers]
  have small : ∀ register ∈ savedRegisters, values register < 32768 := by
    simp [savedRegisters, standard.registers]
  have saved := effect_saves standard _ small
    (by rw [pushed]; exact Memory.push_pointer pointer _) (by omega)
    (by rw [show savedRegisters.length = 4 from rfl]; omega)
  rw [callFront, effect_append, effect_append, effect_append, effect_cons, act_symbol, effect_nil]
  dsimp only
  rw [effect_linkLines standard, saved, pushed, registers]
  rfl

omit standard in
/-- Above the segment registers this leaves the frame on the stack. -/
theorem pushed_frame {memory : Memory} {n : Nat} (pointer : memory 0 = BitVec.ofNat 16 s) (high : 5 ≤ s)
    (room : s + 5 ≤ 32768) :
    (memory.push (BitVec.ofNat 16 (values (returnAddress n)))).saveAll [1, 2, 3, 4] =
      memory.pushAll (frame values memory n) := by
  have below : ∀ address ∈ [1, 2, 3, 4], 0 < address ∧ address < s + 1 := by
    intro address member
    have few : ∀ address ∈ [1, 2, 3, 4], 0 < address ∧ address < 5 := by decide
    exact ⟨(few address member).1, Nat.lt_of_lt_of_le (few address member).2 (by omega)⟩
  have unchanged (address : Nat) (small : 0 < address ∧ address < 5) (value : Word) :
      memory.push value address = memory address :=
    Memory.push_apply_of_ne pointer (by omega) value (by omega) (by omega)
  rw [Memory.saveAll_eq_pushAll (Memory.push_pointer pointer _) below
    (by rw [show [1, 2, 3, 4].length = 4 from rfl]; omega), frame, Memory.pushAll_cons]
  simp [unchanged]

/-- A local variable begins as a zero on the stack. -/
theorem effect_clearLocal (free : cell (store.memory 0) ≠ 0) :
    (effect values store clearLocal).memory = store.memory.push 0 := by
  simp [clearLocal, standard.registers, Computation.value, Computation.source, Source.input,
    cell_ofNat, Memory.push, Function.update_of_ne free.symm]

/-- All local variables begin as zeros. -/
theorem effect_clearLocals (localCount : Nat) (pointer : store.memory 0 = BitVec.ofNat 16 s)
    (high : 16 ≤ s) (room : s + localCount ≤ 32768) :
    (effect values store (List.replicate localCount clearLocal).flatten).memory =
      store.memory.pushAll (List.replicate localCount 0) := by
  induction localCount generalizing store s with
  | zero => rfl
  | succ localCount ih =>
      have free : cell (store.memory 0) ≠ 0 := by
        rw [pointer, cell_ofNat (by omega)]
        omega
      have cleared := effect_clearLocal standard store free
      rw [List.replicate_succ, List.flatten_cons, effect_append, List.replicate_succ,
        Memory.pushAll_cons, ih (effect values store clearLocal)
          (by rw [cleared]; exact Memory.push_pointer pointer _) (by omega) (by omega), cleared]

/-- The return address and the function have to fit an address instruction. -/
theorem addressable_callBlock {n argumentCount : Nat} {name : String}
    (returnSmall : values (returnAddress n) ≤ largestConstant)
    (nameSmall : values name ≤ largestConstant)
    (few : frameSize + argumentCount ≤ largestConstant) :
    Addressable values (callBlock n name argumentCount) := by
  simp only [largestConstant] at returnSmall nameSmall few
  simp [callBlock, saveBlock, pushD, setD, setA, setM, standard.registers, returnSmall, nameSmall,
    few, largestConstant]

/-- A function header loads the stack pointer only. -/
theorem addressable_functionBlock (name : String) (localCount : Nat) :
    Addressable values (functionBlock name localCount) := by
  rw [functionBlock, addressable_label]
  induction localCount with
  | zero => exact addressable_nil
  | succ localCount ih =>
      rw [List.replicate_succ, List.flatten_cons, addressable_append]
      refine ⟨?_, ih⟩
      simp [clearLocal, setA, setM, standard.registers]

omit standard in
/-- A function header does not jump. -/
theorem straight_functionBlock (name : String) (localCount : Nat) :
    (functionBlock name localCount).all Line.goesOn = true := by
  rw [functionBlock, List.all_cons]
  induction localCount with
  | zero => rfl
  | succ localCount ih =>
      rw [List.replicate_succ, List.flatten_cons, List.all_append]
      exact ih

variable {rom : Nat → Word} {start : Nat}

omit standard in
/-- A call runs through its lines and jumps to the function, wherever the stack is. -/
theorem steps_callBlock {n argumentCount : Nat} {name : String}
    (loaded : Loaded rom values start (callBlock n name argumentCount))
    (addressable : Addressable values (callBlock n name argumentCount)) :
    values (returnAddress n) = start + size (callBlock n name argumentCount) ∧
      (Machine.step rom)^[size (callBlock n name argumentCount)] ⟨store, start⟩ =
        ⟨effect values store (callFront n name argumentCount), values name⟩ := by
  rw [callBlock_eq] at loaded addressable ⊢
  obtain ⟨loadedFront, loadedBack⟩ := loaded_append.mp loaded
  obtain ⟨loadedJump, loadedLabel⟩ := loaded_append.mp loadedBack
  have addressableFront := (addressable_append.mp addressable).1
  refine ⟨?_, ?_⟩
  · simp [loadedLabel.1, Nat.add_assoc]
  · have front := steps_straight store loadedFront addressableFront rfl
    have points : (effect values store (callFront n name argumentCount)).a =
        BitVec.ofNat 16 (values name) := by
      rw [callFront, effect_append, effect_append, effect_append]
      rfl
    have nameSmall : values name ≤ largestConstant :=
      addressableFront (.symbol name) (by simp [callFront, symbol])
    have jump := step_jump_taken _ loadedJump rfl points nameSmall rfl
    rw [size_append, Nat.add_comm, Function.iterate_add_apply, front]
    exact jump

/-- **Calls.**  A call jumps to the function, with the frame on the stack and the segments linked. -/
theorem run_callBlock {n argumentCount : Nat} {name : String}
    (loaded : Loaded rom values start (callBlock n name argumentCount))
    (addressable : Addressable values (callBlock n name argumentCount))
    (pointer : store.memory 0 = BitVec.ofNat 16 s) (high : 5 ≤ s) (room : s + 5 ≤ 32768) :
    values (returnAddress n) = start + size (callBlock n name argumentCount) ∧
      ∃ after : Store, Reaches rom ⟨store, start⟩ ⟨after, values name⟩ ∧
        after.memory =
          (store.memory.pushAll (frame values store.memory n)).link argumentCount := by
  obtain ⟨behind, steps⟩ := steps_callBlock store loaded addressable
  refine ⟨behind, _, ⟨_, steps⟩, ?_⟩
  rw [effect_callFront standard store pointer (by omega) room, pushed_frame pointer high room]

/-- **Function headers.**  A function begins at its label with zeros in its local variables. -/
theorem run_functionBlock {name : String} {localCount : Nat}
    (loaded : Loaded rom values start (functionBlock name localCount))
    (pointer : store.memory 0 = BitVec.ofNat 16 s) (high : 16 ≤ s)
    (room : s + localCount ≤ 32768) :
    values name = start ∧
      ∃ after : Store,
        Reaches rom ⟨store, start⟩ ⟨after, start + size (functionBlock name localCount)⟩ ∧
          after.memory = store.memory.pushAll (List.replicate localCount 0) := by
  refine ⟨loaded.1, _, run_straight store loaded (addressable_functionBlock standard name localCount)
    (straight_functionBlock name localCount), ?_⟩
  rw [functionBlock, effect_cons, act_label]
  exact effect_clearLocals standard store localCount pointer high room

end Calls

/-! ## Entering a function -/

/-- The memory in which the body of a function begins. -/
def Memory.enter (memory : Memory) (values : String → Nat) (n argumentCount localCount : Nat) :
    Memory :=
  ((memory.pushAll (frame values memory n)).link argumentCount).pushAll
    (List.replicate localCount 0)

/-- Apart from the two segment registers a call only pushes the frame. -/
theorem Memory.link_apply {memory : Memory} {argumentCount address : Nat} (first : address ≠ 1)
    (second : address ≠ 2) : memory.link argumentCount address = memory address := by
  rw [link, Function.update_of_ne first, Function.update_of_ne second]

/-- **What the body of a function finds**: its segments, zeros in its local variables, and below the
frame what was there before. -/
structure Entered (before entered : Memory) (s argumentCount localCount : Nat) : Prop where
  arguments : entered 2 = BitVec.ofNat 16 (s - argumentCount)
  locals : entered 1 = BitVec.ofNat 16 (s + 5)
  cleared : ∀ i < localCount, entered (s + 5 + i) = 0
  pointer : entered 0 = BitVec.ofNat 16 (s + 5 + localCount)
  unchanged : ∀ address, 16 ≤ address → address < s → entered address = before address

section Enter

variable {memory : Memory} {s argumentCount localCount : Nat} (values : String → Nat) (n : Nat)
  (pointer : memory 0 = BitVec.ofNat 16 s) (below : argumentCount + 16 ≤ s)
  (room : s + 5 + localCount ≤ 32768)

include pointer

/-- The frame ends where the local segment begins. -/
theorem frame_pointer :
    memory.pushAll (frame values memory n) 0 = BitVec.ofNat 16 (s + 5) :=
  Memory.pushAll_pointer pointer (frame values memory n)

theorem link_pointer :
    (memory.pushAll (frame values memory n)).link argumentCount 0 = BitVec.ofNat 16 (s + 5) := by
  rw [Memory.link_apply (by decide) (by decide), frame_pointer values n pointer]

include room

/-- Below the locals nothing is written but the frame and the segment registers. -/
theorem enter_apply {address : Nat} (notPointer : address ≠ 0) (outside : address < s + 5) :
    memory.enter values n argumentCount localCount address =
      (memory.pushAll (frame values memory n)).link argumentCount address :=
  Memory.pushAll_apply_of_outside (link_pointer values n pointer)
    (by rwa [List.length_replicate]) notPointer (.inl outside)

include below

/-- The cells of the frame. -/
theorem enter_frame {i : Nat} (small : i < 5) :
    memory.enter values n argumentCount localCount (s + i) = (frame values memory n)[i] := by
  rw [enter_apply values n pointer room (by omega) (by omega),
    Memory.link_apply (by omega) (by omega)]
  exact Memory.pushAll_apply pointer (by omega)
    (by rw [show (frame values memory n).length = 5 from rfl]; omega) small

/-- A call and a function header make what a body finds. -/
theorem entered_enter :
    Entered memory (memory.enter values n argumentCount localCount) s argumentCount localCount where
  arguments := by
    have sum : s + 5 = (s - argumentCount) + (frameSize + argumentCount) := by
      rw [frameSize]
      omega
    rw [enter_apply values n pointer room (by decide) (by omega), Memory.link,
      Function.update_of_ne (by decide), Function.update_self, frame_pointer values n pointer, sum,
      BitVec.ofNat_add, BitVec.add_sub_cancel]
  locals := by
    rw [enter_apply values n pointer room (by decide) (by omega), Memory.link, Function.update_self,
      frame_pointer values n pointer]
  cleared i small := by
    have length : (List.replicate localCount (0 : Word)).length = localCount :=
      List.length_replicate
    rw [Memory.enter, Memory.pushAll_apply (link_pointer values n pointer) (by omega)
      (by rwa [length]) (by rwa [length])]
    exact List.getElem_replicate _
  pointer := by
    rw [Memory.enter, Memory.pushAll_pointer (link_pointer values n pointer),
      List.length_replicate]
  unchanged address high lower := by
    rw [enter_apply values n pointer room (by omega) (by omega),
      Memory.link_apply (by omega) (by omega)]
    exact Memory.pushAll_apply_of_outside pointer
      (by rw [show (frame values memory n).length = 5 from rfl]; omega) (by omega) (.inl lower)

end Enter

end JackToolchain.Hack
