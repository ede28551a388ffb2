import Mathlib.Logic.Function.Iterate
import JackToolchain.Hack.Compute

/-!
# The machine

The machine that runs assembled words: two registers, a memory of 32768 words, and a program counter.

## Main Definitions

* `Store` — the registers `A` and `D` and the memory.  `cell` is the part of a word that addresses the
  memory.
* `Machine` — a store and a program counter; `Machine.step` executes the word to which the counter
  points.
* `alu` — the arithmetic unit, driven by six control bits.
* `Computation.value`, `Jump.taken`, `Compute.perform` — what the parts of a compute instruction are
  meant to do.
* `Reaches` — some number of steps leads from one machine to another.

## Main Statements

* `alu_control` — the control bits of a computation make the unit compute it.
* `step_address`, `step_compute` — the machine does on a word what the instruction means.

## Design Notes

`Machine.step` reads single bits of a word and knows nothing of mnemonics, so `step_compute` is the
place where the tables of the encoder are checked against the hardware.  The program counter is a
number without bound; a jump can lead to any address that a register holds.
-/

namespace JackToolchain.Hack

/-! ## Stores -/

/-- The content of the memory. -/
abbrev Memory := Nat → Word

/-- The cell that a word addresses: its fifteen lower bits. -/
def cell (address : Word) : Nat := address.toNat % 32768

/-- A small address is that of its own cell. -/
theorem cell_ofNat {address : Nat} (small : address < 32768) :
    cell (BitVec.ofNat 16 address) = address := by
  rw [cell, BitVec.toNat_ofNat]
  omega

/-- The registers `A` and `D` and the memory. -/
structure Store where
  a : Word
  d : Word
  memory : Memory

/-- A store, and the position of the instruction that is next. -/
structure Machine extends Store where
  counter : Nat

/-! ## The arithmetic unit -/

/-- The arithmetic unit: clears and negates its first input, clears and negates its second, adds or
conjoins them, and negates the result, each if a control bit says so. -/
def alu (control : BitVec 6) (x y : Word) : Word :=
  let x := if control.getLsbD 5 then 0 else x
  let x := if control.getLsbD 4 then ~~~x else x
  let y := if control.getLsbD 3 then 0 else y
  let y := if control.getLsbD 2 then ~~~y else y
  let out := if control.getLsbD 1 then x + y else x &&& y
  if control.getLsbD 0 then ~~~out else out

/-- Whether jump bits make the machine jump: on a negative result, on zero, on a positive result. -/
def jumps (bits : BitVec 3) (result : Word) : Bool :=
  (bits.getLsbD 2 && decide (result.toInt < 0)) || (bits.getLsbD 1 && decide (result.toInt = 0)) ||
    (bits.getLsbD 0 && decide (0 < result.toInt))

/-! ## Steps -/

namespace Machine

/-- Executes a word whose leading bit is set.  The memory is written and the jump goes where the old
value of `A` points. -/
def execute (machine : Machine) (word : Word) : Machine :=
  let y := if word.getLsbD 12 then machine.memory (cell machine.a) else machine.a
  let out := alu (word.extractLsb' 6 6) machine.d y
  { a := if word.getLsbD 5 then out else machine.a
    d := if word.getLsbD 4 then out else machine.d
    memory := if word.getLsbD 3 then Function.update machine.memory (cell machine.a) out
      else machine.memory
    counter := if jumps (word.extractLsb' 0 3) out then machine.a.toNat
      else machine.counter + 1 }

/-- Executes the word to which the counter points.  A word whose leading bit is clear is loaded into
`A`. -/
def step (rom : Nat → Word) (machine : Machine) : Machine :=
  let word := rom machine.counter
  if word.getLsbD 15 then machine.execute word
  else { machine with a := word, counter := machine.counter + 1 }

end Machine

/-- Some number of steps leads from one machine to the other. -/
def Reaches (rom : Nat → Word) (before after : Machine) : Prop :=
  ∃ steps : Nat, (Machine.step rom)^[steps] before = after

namespace Reaches

variable {rom : Nat → Word} {first second third : Machine}

theorem refl (machine : Machine) : Reaches rom machine machine := ⟨0, rfl⟩

theorem trans (front : Reaches rom first second) (back : Reaches rom second third) :
    Reaches rom first third := by
  obtain ⟨m, rfl⟩ := front
  obtain ⟨n, rfl⟩ := back
  exact ⟨n + m, Function.iterate_add_apply _ n m first⟩

theorem step (stepped : first.step rom = second) : Reaches rom first second := ⟨1, stepped⟩

end Reaches

/-! ## What instructions mean -/

/-- The value of a computation on its two inputs. -/
def Computation.value (x y : Word) : Computation → Word
  | .zero => 0
  | .one => 1
  | .minusOne => -1
  | .x => x
  | .notX => ~~~x
  | .negX => -x
  | .xPlusOne => x + 1
  | .xMinusOne => x - 1
  | .y _ => y
  | .notY _ => ~~~y
  | .negY _ => -y
  | .yPlusOne _ => y + 1
  | .yMinusOne _ => y - 1
  | .xPlusY _ => x + y
  | .xMinusY _ => x - y
  | .yMinusX _ => y - x
  | .xAndY _ => x &&& y
  | .xOrY _ => x ||| y

/-- Whether a jump is taken on a result. -/
def Jump.taken (result : Word) : Jump → Bool
  | .never => false
  | .ifPositive => 0 < result.toInt
  | .ifZero => result.toInt = 0
  | .ifNotNegative => 0 ≤ result.toInt
  | .ifNegative => result.toInt < 0
  | .ifNotZero => result.toInt ≠ 0
  | .ifNotPositive => result.toInt ≤ 0
  | .always => true

/-- The second input of a computation. -/
def Source.input (store : Store) : Source → Word
  | .address => store.a
  | .memory => store.memory (cell store.a)

namespace Compute

/-- The result of an instruction. -/
def result (compute : Compute) (store : Store) : Word :=
  compute.computation.value store.d (compute.computation.source.input store)

/-- What an instruction does to the store. -/
def perform (compute : Compute) (store : Store) : Store where
  a := if compute.destination.a then compute.result store else store.a
  d := if compute.destination.d then compute.result store else store.d
  memory := if compute.destination.m then
    Function.update store.memory (cell store.a) (compute.result store) else store.memory

end Compute

/-! ## The unit and its bits -/

/-- A word of ones is neutral on the right… -/
private theorem and_ones (x : Word) : x &&& 65535#16 = x := BitVec.and_allOnes

/-- …and on the left. -/
private theorem ones_and (y : Word) : 65535#16 &&& y = y := BitVec.allOnes_and

/-- **The control bits.**  Those of a computation make the unit compute it. -/
theorem alu_control (computation : Computation) (x y : Word) :
    alu computation.control x y = computation.value x y := by
  cases computation with
  | x | notX | y | notY | xAndY | xOrY =>
      simp [alu, Computation.control, Computation.value, and_ones, ones_and, BitVec.not_and]
  | _ =>
      -- what the unit leaves here are sums of words and complements
      simp [alu, Computation.control, Computation.value] <;> bv_omega

/-- **The jump bits.**  Those of a jump are taken on its results. -/
theorem jumps_bits (jump : Jump) (result : Word) :
    jumps jump.bits result = jump.taken result := by
  have signs := Int.lt_trichotomy result.toInt 0
  rw [Bool.eq_iff_iff]
  cases jump <;> simp [jumps, Jump.bits, Jump.taken] <;> omega

/-! ## Decoding -/

/-- The bits of an encoded instruction, field by field. -/
theorem encode_getLsbD (compute : Compute) (i : Nat) :
    compute.encode.getLsbD i =
      if i < 3 then compute.jump.bits.getLsbD i
      else if i < 6 then compute.destination.bits.getLsbD (i - 3)
      else if i < 12 then compute.computation.control.getLsbD (i - 6)
      else if i < 13 then compute.computation.source.bit.getLsbD (i - 12)
      else (7#3).getLsbD (i - 13) := by
  simp only [Compute.encode, BitVec.getLsbD_append, Nat.sub_sub]
  grind

/-- The control field of an encoded instruction. -/
theorem encode_control (compute : Compute) :
    compute.encode.extractLsb' 6 6 = compute.computation.control := by
  apply BitVec.eq_of_getLsbD_eq
  intro i small
  rw [BitVec.getLsbD_extractLsb', encode_getLsbD, if_neg (by omega), if_neg (by omega),
    if_pos (by omega), Nat.add_sub_cancel_left, decide_eq_true small, Bool.true_and]

/-- The jump field of an encoded instruction. -/
theorem encode_jump (compute : Compute) : compute.encode.extractLsb' 0 3 = compute.jump.bits := by
  apply BitVec.eq_of_getLsbD_eq
  intro i small
  rw [BitVec.getLsbD_extractLsb', encode_getLsbD, Nat.zero_add, if_pos small,
    decide_eq_true small, Bool.true_and]

/-- The source bit of an encoded instruction selects the second input. -/
theorem encode_source (compute : Compute) (store : Store) :
    (if compute.encode.getLsbD 12 then store.memory (cell store.a) else store.a) =
      compute.computation.source.input store := by
  rw [encode_getLsbD]
  cases compute.computation.source <;> rfl

/-- The destination bits of an encoded instruction. -/
theorem encode_destination (compute : Compute) :
    compute.encode.getLsbD 5 = compute.destination.a ∧
      compute.encode.getLsbD 4 = compute.destination.d ∧
      compute.encode.getLsbD 3 = compute.destination.m := by
  have bits (destination : Destination) : destination.bits.getLsbD 2 = destination.a ∧
      destination.bits.getLsbD 1 = destination.d ∧ destination.bits.getLsbD 0 = destination.m := by
    obtain ⟨a, d, m⟩ := destination
    cases a <;> cases d <;> cases m <;> decide
  rw [encode_getLsbD, encode_getLsbD, encode_getLsbD]
  exact bits compute.destination

/-! ## What the machine does on encoded words -/

variable {rom : Nat → Word} {counter : Nat}

/-- **Compute instructions.**  The machine does what the instruction means. -/
theorem step_compute {compute : Compute} (store : Store) (encoded : rom counter = compute.encode) :
    Machine.step rom ⟨store, counter⟩ =
      ⟨compute.perform store, if compute.jump.taken (compute.result store) then store.a.toNat
        else counter + 1⟩ := by
  obtain ⟨toA, toD, toM⟩ := encode_destination compute
  have leading : compute.encode.getLsbD 15 = true := by
    rw [encode_getLsbD]
    rfl
  have out : alu (compute.encode.extractLsb' 6 6) store.d
      (if compute.encode.getLsbD 12 then store.memory (cell store.a) else store.a) =
      compute.result store := by
    rw [encode_control, encode_source, alu_control]
    rfl
  rw [Machine.step, encoded, if_pos leading, Machine.execute]
  simp only [out, toA, toD, toM, encode_jump, jumps_bits]
  rfl

/-- **Address instructions.**  A number that a constant can hold is loaded into `A`. -/
theorem step_address {value : Nat} (store : Store) (small : value < 32768)
    (encoded : rom counter = BitVec.ofNat 16 value) :
    Machine.step rom ⟨store, counter⟩ =
      ⟨{ store with a := BitVec.ofNat 16 value }, counter + 1⟩ := by
  have leading : (BitVec.ofNat 16 value).getLsbD 15 = false := by
    rw [BitVec.getLsbD_ofNat, Nat.testBit_lt_two_pow small]
    rfl
  rw [Machine.step, encoded, if_neg (by rw [leading]; exact Bool.false_ne_true)]

end JackToolchain.Hack
