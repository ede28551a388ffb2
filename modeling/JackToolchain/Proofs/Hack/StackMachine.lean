import JackToolchain.Proofs.Hack.Machine
import JackToolchain.Vm.Instruction

/-!
# The stack machine

What a stack-machine instruction means on the memory in which stack and segments are kept.

## Main Definitions

* `Memory.top`, `Memory.push`, `Memory.drop`, `Memory.replaceTop`, `Memory.combine` — the stack, whose
  first free cell stands in cell 0.
* `segmentCell?`, `fetch` — the cell of a segment, and the value found there.
* `Memory.operate` — the nine operations.
* `outcome?` — the memory that an instruction leaves, and the label to which it passes control.
* `touched` — the cells of the stack and of the segments that an instruction reads or writes.

## Design Notes

The meaning is given on the same memory on which the generated code works, so that a statement about
the code can say what happens in every cell.  Calls, function headers and returns are left out: they
have no meaning by themselves, only together.
-/

namespace JackToolchain.Hack

open Vm

/-! ## The stack -/

namespace Memory

/-- The top of the stack. -/
def top (memory : Memory) : Word := memory (cell (memory 0 - 1#16))

/-- The memory with one value more on the stack. -/
def push (memory : Memory) (value : Word) : Memory :=
  Function.update (Function.update memory (cell (memory 0)) value) 0 (memory 0 + 1#16)

/-- The memory without the top of the stack. -/
def drop (memory : Memory) : Memory := Function.update memory 0 (memory 0 - 1#16)

/-- The memory with another value on top of the stack. -/
def replaceTop (memory : Memory) (value : Word) : Memory :=
  Function.update memory (cell (memory 0 - 1#16)) value

/-- The two topmost values combined into one, the lower one first. -/
def combine (memory : Memory) (f : Word → Word → Word) : Memory :=
  memory.drop.replaceTop (f memory.drop.top memory.top)

end Memory

/-! ## Segments -/

/-- The cell of a segment at an index, given the cells of the static segment.  The constant segment has
no cells. -/
def segmentCell? (statics : Nat → Nat) (memory : Memory) (index : Nat) : Segment → Option Nat
  | .constant => none
  | .local_ => some (cell (memory 1 + BitVec.ofNat 16 index))
  | .argument => some (cell (memory 2 + BitVec.ofNat 16 index))
  | .this => some (cell (memory 3 + BitVec.ofNat 16 index))
  | .that => some (cell (memory 4 + BitVec.ofNat 16 index))
  | .pointer => some (3 + index)
  | .temp => some (5 + index)
  | .static_ => some (statics index)

/-- The value of a segment at an index: the content of its cell, or the index itself. -/
def fetch (statics : Nat → Nat) (memory : Memory) (segment : Segment) (index : Nat) : Word :=
  match segmentCell? statics memory index segment with
  | some address => memory address
  | none => BitVec.ofNat 16 index

/-! ## Operations -/

/-- The word of a truth value: all bits set, or none. -/
def truth (holds : Bool) : Word := if holds then -1 else 0

/-- What an operation does to the stack.  Comparisons look at the sign of the difference, which may
overflow. -/
def Memory.operate (memory : Memory) : Operation → Memory
  | .add => memory.combine fun x y => x + y
  | .sub => memory.combine fun x y => x - y
  | .and => memory.combine fun x y => x &&& y
  | .or => memory.combine fun x y => x ||| y
  | .neg => memory.replaceTop (-memory.top)
  | .not => memory.replaceTop (~~~memory.top)
  | .eq => memory.combine fun x y => truth ((x - y).toInt = 0)
  | .gt => memory.combine fun x y => truth (0 < (x - y).toInt)
  | .lt => memory.combine fun x y => truth ((x - y).toInt < 0)

/-! ## Instructions -/

/-- What an instruction leaves. -/
structure Outcome where
  memory : Memory
  /-- The label to which control passes; none if it passes to the next instruction. -/
  target : Option String := none

/-- What an instruction leaves; none for calls, function headers and returns. -/
def outcome? (statics : Nat → Nat) (memory : Memory) : Instruction → Option Outcome
  | .push segment index => some { memory := memory.push (fetch statics memory segment index) }
  | .pop segment index =>
    match segmentCell? statics memory index segment with
    | some address => some { memory := Function.update memory.drop address memory.top }
    | none => none
  | .operate operation => some { memory := memory.operate operation }
  | .label _ => some { memory }
  | .goto name => some { memory, target := some name }
  | .ifGoto name =>
    some { memory := memory.drop, target := if memory.top = 0 then none else some name }
  | .call .. | .function .. | .return_ => none

/-- The cells of the stack that an instruction reads or writes. -/
def stackCells (memory : Memory) : Instruction → List Nat
  | .push .. => [cell (memory 0)]
  | .pop .. | .ifGoto _ => [cell (memory 0 - 1#16)]
  | .operate .neg | .operate .not => [cell (memory 0 - 1#16)]
  | .operate _ => [cell (memory 0 - 1#16), cell (memory 0 - 2#16)]
  | _ => []

/-- Whether the cells of a segment may lie anywhere in memory. -/
def isMovable : Segment → Bool
  | .local_ | .argument | .this | .that | .static_ => true
  | .constant | .pointer | .temp => false

/-- The cell of a segment that an instruction reads or writes, unless it is a register. -/
def segmentCells (statics : Nat → Nat) (memory : Memory) : Instruction → List Nat
  | .push segment index | .pop segment index =>
    if isMovable segment then (segmentCell? statics memory index segment).toList else []
  | _ => []

/-- The cells of the stack and of the segments that an instruction reads or writes. -/
def touched (statics : Nat → Nat) (memory : Memory) (instruction : Instruction) : List Nat :=
  stackCells memory instruction ++ segmentCells statics memory instruction

/-! ## Scratch registers -/

/-- The registers that generated code uses for its own purposes. -/
def scratch : List Nat := [13, 14, 15]

/-- Two memories with the same content outside the scratch registers. -/
def Memory.Agree (first second : Memory) : Prop :=
  ∀ address, address ∉ scratch → first address = second address

namespace Memory

theorem Agree.refl (memory : Memory) : memory.Agree memory := fun _ _ => rfl

/-- The same write on both sides keeps the agreement. -/
theorem Agree.update {first second : Memory} (agree : first.Agree second) (address : Nat)
    (value : Word) :
    Memory.Agree (Function.update first address value) (Function.update second address value) := by
  intro other visible
  by_cases same : other = address
  · rw [same, Function.update_self, Function.update_self]
  · rw [Function.update_of_ne same, Function.update_of_ne same, agree other visible]

/-- A write to a scratch register is not seen. -/
theorem agree_update (memory : Memory) {address : Nat} (hidden : address ∈ scratch) (value : Word) :
    memory.Agree (Function.update memory address value) := by
  intro other visible
  rw [Function.update_of_ne]
  rintro rfl
  exact visible hidden

end Memory

end JackToolchain.Hack
