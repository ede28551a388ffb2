import JackToolchain.Proofs.Hack.Calls
import JackToolchain.Proofs.Hack.Linking
import JackToolchain.Settings

/-!
# Setting up the stack

What the lines in front of a program leave when the function is entered with which it begins.

## Main Definitions

* `Memory.started` — the memory in which the first function is entered.
* `Started` — a sound first frame, with everything else as it was.

## Main Statements

* `steps_startBlock` — the machine runs through the lines and jumps to the function.
* `started_iff` — the first frame is sound, whatever the memory held, if and only if the stack begins
  above the segment registers and the frame ends within the memory.
* `bootstrap_starts_iff` — so it is for the lines that are emitted from settings that were read.
* `low_stack_overwrites_registers` — settings that put the stack at the first segment register are read.

## Design Notes

Settings are refused if the stack begins at its own pointer or where no address instruction reaches.
Between these limits there are four bases at which the frame covers segment registers before they are
saved, and four at which it runs over the end of the memory.
-/

namespace JackToolchain.Hack

open Vm Line

/-! ## The first frame -/

namespace Memory

/-- The memory with the stack pointer set. -/
def pointed (memory : Memory) (base : Nat) : Memory :=
  Function.update memory 0 (BitVec.ofNat 16 base)

theorem pointed_pointer (memory : Memory) (base : Nat) :
    memory.pointed base 0 = BitVec.ofNat 16 base :=
  Function.update_self ..

theorem pointed_of_ne (memory : Memory) (base : Nat) {address : Nat} (other : address ≠ 0) :
    memory.pointed base address = memory address :=
  Function.update_of_ne other ..

/-- The memory in which the first function is entered: the stack pointer is set, and the function called
without arguments. -/
def started (memory : Memory) (base returnTo : Nat) : Memory :=
  (((memory.pointed base).push (BitVec.ofNat 16 returnTo)).saveAll [1, 2, 3, 4]).link 0

end Memory

/-- **A sound first frame**: return address and segment registers lie on the stack, the stack and the
locals begin above them, and there are no arguments. -/
structure Started (before after : Memory) (base returnTo : Nat) : Prop where
  pointer : after 0 = BitVec.ofNat 16 (base + 5)
  locals : after 1 = BitVec.ofNat 16 (base + 5)
  arguments : after 2 = BitVec.ofNat 16 base
  this : after 3 = before 3
  that : after 4 = before 4
  returns : after base = BitVec.ofNat 16 returnTo
  saved : ∀ i < 4, after (base + 1 + i) = before (1 + i)
  unchanged : ∀ address, 2 < address → address < base ∨ base + 5 ≤ address →
    after address = before address

section Room

variable (memory : Memory) {base : Nat} (returnTo : Nat)

/-- Above the segment registers, and within the memory, the frame is sound. -/
theorem started_of_room (high : 5 ≤ base) (room : base + 5 ≤ 32768) :
    Started memory (memory.started base returnTo) base returnTo := by
  -- the return address as the value of a label
  let values : String → Nat := fun _ => returnTo
  have pointer := memory.pointed_pointer base
  have framed : memory.started base returnTo =
      ((memory.pointed base).pushAll (frame values (memory.pointed base) 0)).link 0 := by
    rw [← pushed_frame pointer high room]
    rfl
  have length : (frame values (memory.pointed base) 0).length = 5 := rfl
  have top := frame_pointer values 0 pointer
  have cells (i : Nat) (small : i < 5) : memory.started base returnTo (base + i) =
      (frame values (memory.pointed base) 0)[i] := by
    rw [framed, Memory.link_apply (by omega) (by omega)]
    exact Memory.pushAll_apply pointer (by omega) (by rwa [length]) small
  have outside (address : Nat) (second : 2 < address) (apart : address < base ∨ base + 5 ≤ address) :
      memory.started base returnTo address = memory address := by
    rw [framed, Memory.link_apply (by omega) (by omega), Memory.pushAll_apply_of_outside pointer
      (by rwa [length]) (by omega) (by rwa [length]), memory.pointed_of_ne base (by omega)]
  exact {
    pointer := by rw [framed, link_pointer values 0 pointer]
    locals := by rw [framed, Memory.link, Function.update_self, top]
    arguments := by
      rw [framed, Memory.link, Function.update_of_ne (by decide), Function.update_self, top,
        BitVec.ofNat_add]
      exact BitVec.add_sub_cancel _ _
    this := outside 3 (by decide) (.inl (by omega))
    that := outside 4 (by decide) (.inl (by omega))
    returns := cells 0 (by decide)
    saved := fun i small => by
      have kept := memory.pointed_of_ne base (by omega : 1 + i ≠ 0)
      rw [Nat.add_assoc, cells (1 + i) (by omega), ← kept]
      interval_cases i <;> rfl
    unchanged := outside }

/-- **On the segment registers** the return address lies in one that should have been kept. -/
theorem started_of_low (positive : 0 < base) (low : base ≤ 4) :
    memory.started base returnTo 3 = BitVec.ofNat 16 returnTo ∨
      memory.started base returnTo 4 = BitVec.ofNat 16 returnTo := by
  interval_cases base <;>
    simp [Memory.started, Memory.pointed, Memory.push, Memory.link, cell]

end Room

/-! ## The lines in front of a program -/

/-- The lines that set the stack pointer. -/
def pointLines (base : Nat) : List Line := [number base, setD .a, symbol "SP", setM .d]

/-- Everything up to the jump to the first function. -/
def startFront (calls base : Nat) (entry : String) : List Line :=
  pointLines base ++ callFront calls entry 0

section Lines

variable {values : String → Nat} {rom : Nat → Word} {start calls base : Nat} {entry : String}

/-- No line writes to what is not memory. -/
theorem effect_apply_of_beyond (values : String → Nat) (store : Store) (lines : List Line) {address : Nat}
    (beyond : 32768 ≤ address) :
    (effect values store lines).memory address = store.memory address := by
  induction lines generalizing store with
  | nil => rfl
  | cons line rest ih =>
      rw [effect_cons, ih]
      cases line with
      | comment | label | address => rfl
      | compute instruction =>
          have within : cell store.a < 32768 := Nat.mod_lt _ (by decide)
          rw [Line.act, Compute.perform]
          dsimp only
          split
          · exact Function.update_of_ne (by omega) ..
          · rfl

/-- **Running the lines**: the machine takes a step for each word and is then at the first function. -/
theorem steps_startBlock (store : Store) (loaded : Loaded rom values start (startBlock calls base entry))
    (addressable : Addressable values (startBlock calls base entry)) :
    values (returnAddress calls) = start + size (startBlock calls base entry) ∧
      (Machine.step rom)^[size (startBlock calls base entry)] ⟨store, start⟩ =
        ⟨effect values store (startFront calls base entry), values entry⟩ := by
  obtain ⟨loadedPoint, loadedCall⟩ := loaded_append.mp loaded
  obtain ⟨addressablePoint, addressableCall⟩ := addressable_append.mp addressable
  have pointed := steps_straight store loadedPoint addressablePoint rfl
  obtain ⟨behind, called⟩ := steps_callBlock (effect values store (pointLines base)) loadedCall
    addressableCall
  refine ⟨?_, ?_⟩
  · rw [behind, startBlock, size_append, Nat.add_assoc]
  · rw [startBlock, size_append, Nat.add_comm, Function.iterate_add_apply, pointed]
    rw [startFront, effect_append]
    exact called

variable (standard : Standard values)

include standard

theorem effect_pointLines (store : Store) (base : Nat) :
    (effect values store (pointLines base)).memory = store.memory.pointed base := by
  simp [pointLines, standard.registers, Computation.value, Computation.source, Source.input, cell_ofNat,
    Memory.pointed]

/-- As long as the frame ends within the memory, the lines make the memory in which the function is
entered. -/
theorem effect_startFront (store : Store) (positive : 0 < base) (room : base + 5 ≤ 32768) :
    (effect values store (startFront calls base entry)).memory =
      store.memory.started base (values (returnAddress calls)) := by
  have pointed := effect_pointLines standard store base
  have pointer : (effect values store (pointLines base)).memory 0 = BitVec.ofNat 16 base := by
    rw [pointed, Memory.pointed_pointer]
  rw [startFront, effect_append, effect_callFront standard _ pointer positive room, pointed]
  rfl

/-- At a base that is accepted but too low, the frame is not sound for every memory. -/
theorem exists_not_started_of_low (calls : Nat) (entry : String) (positive : 0 < base)
    (low : base ≤ 4) :
    ∃ store : Store, ¬ Started store.memory
      (effect values store (startFront calls base entry)).memory base (values (returnAddress calls)) := by
  -- no segment register holds the return address at the beginning
  refine ⟨⟨0, 0, fun _ => BitVec.ofNat 16 (values (returnAddress calls)) + 1⟩, fun started => ?_⟩
  rw [effect_startFront standard _ positive (by omega)] at started
  have different : BitVec.ofNat 16 (values (returnAddress calls)) ≠
      BitVec.ofNat 16 (values (returnAddress calls)) + 1 := by bv_omega
  rcases started_of_low (fun _ => BitVec.ofNat 16 (values (returnAddress calls)) + 1)
    (values (returnAddress calls)) positive low with this | that
  · exact different (this.symm.trans started.this)
  · exact different (that.symm.trans started.that)

omit standard in
/-- Neither is it at a base from which it runs over the end of the memory. -/
theorem exists_not_started_of_overrun (values : String → Nat) (calls : Nat) (entry : String)
    (overrun : 32768 < base + 5) :
    ∃ store : Store, ¬ Started store.memory
      (effect values store (startFront calls base entry)).memory base (values (returnAddress calls)) := by
  refine ⟨⟨0, 0, Function.update (fun _ => 0) 4 1⟩, fun started => ?_⟩
  have saved := started.saved 3 (by decide)
  have unsaved := effect_apply_of_beyond values
    (⟨0, 0, Function.update (fun _ => 0) 4 1⟩ : Store) (startFront calls base entry)
    (by omega : 32768 ≤ base + 1 + 3)
  have untouched : (Function.update (fun _ => 0) 4 1 : Memory) (base + 1 + 3) = 0 :=
    Function.update_of_ne (by omega) ..
  rw [unsaved] at saved
  exact absurd (untouched.symm.trans saved) (by decide)

/-- **The first frame is sound for every memory** if and only if the stack begins above the segment
registers and the frame ends within the memory. -/
theorem started_iff (positive : 0 < base) :
    (∀ store : Store, Started store.memory
      (effect values store (startFront calls base entry)).memory base (values (returnAddress calls))) ↔
      5 ≤ base ∧ base ≤ 32763 := by
  refine ⟨fun sound => ⟨?_, ?_⟩, fun ⟨high, room⟩ store => ?_⟩
  · by_contra low
    obtain ⟨store, unsound⟩ := exists_not_started_of_low standard calls entry positive (by omega)
    exact unsound (sound store)
  · by_contra overrun
    obtain ⟨store, unsound⟩ := exists_not_started_of_overrun values calls entry
      (by omega : 32768 < base + 5)
    exact unsound (sound store)
  · rw [effect_startFront standard store positive (by omega)]
    exact started_of_room store.memory _ high (by omega)

end Lines

/-! ## Accepted settings -/

/-- The lines for an entry that fits an address instruction, at a base that does. -/
theorem addressable_startBlock {values : String → Nat} {calls base : Nat} {entry : String}
    (standard : Standard values) (small : base ≤ largestConstant)
    (returnSmall : values (returnAddress calls) ≤ largestConstant)
    (entrySmall : values entry ≤ largestConstant) :
    Addressable values (startBlock calls base entry) := by
  refine addressable_append.mpr ⟨?_, addressable_callBlock standard returnSmall entrySmall (by decide)⟩
  simp [setD, setM, standard.registers, small]

/-- **Setting up the stack** as accepted settings say: the machine takes a step for each word that was
emitted and is then at the first function.  Its frame is sound, whatever the memory held, if and only if the
stack begins above the segment registers and the frame ends within the memory. -/
theorem bootstrap_starts_iff {content : String} {settings : Settings} {lowering : Lowering}
    {entry : String} {lines : List Line} {values : String → Nat} {rom : Nat → Word} {start : Nat}
    (accepted : Settings.read content = .ok settings)
    (emitted : (lowering.bootstrap settings.stackBase entry).lines.toList =
      lowering.lines.toList ++ lines)
    (standard : Standard values) (loaded : Loaded rom values start lines)
    (returnSmall : values (returnAddress lowering.calls) ≤ largestConstant)
    (entrySmall : values entry ≤ largestConstant) :
    values (returnAddress lowering.calls) = start + size lines ∧
      ((∀ store : Store, ∃ after : Store,
          (Machine.step rom)^[size lines] ⟨store, start⟩ = ⟨after, values entry⟩ ∧
            Started store.memory after.memory settings.stackBase
              (values (returnAddress lowering.calls))) ↔
        5 ≤ settings.stackBase ∧ settings.stackBase ≤ 32763) := by
  obtain ⟨positive, small⟩ := Settings.stackBase_of_read accepted
  have addressable := addressable_startBlock standard small returnSmall entrySmall
  -- a comment in front of the lines takes no word
  have block : Loaded rom values start (startBlock lowering.calls settings.stackBase entry) ∧
      size lines = size (startBlock lowering.calls settings.stackBase entry) := by
    rw [bootstrap_lines, List.append_cancel_left_eq] at emitted
    obtain rfl := emitted
    cases annotate : lowering.annotate with
    | false => exact ⟨by rwa [annotate] at loaded, by rfl⟩
    | true => exact ⟨by rwa [annotate] at loaded, Nat.zero_add _⟩
  obtain ⟨loadedBlock, same⟩ := block
  rw [same, ← started_iff standard positive]
  refine ⟨(steps_startBlock ⟨0, 0, fun _ => 0⟩ loadedBlock addressable).1, ?_⟩
  refine forall_congr' fun store => ?_
  obtain ⟨-, steps⟩ := steps_startBlock store loadedBlock addressable
  refine ⟨fun ⟨after, ran, started⟩ => ?_, fun started => ⟨_, steps, started⟩⟩
  obtain ⟨stores, -⟩ := Machine.mk.inj (steps.symm.trans ran)
  exact stores ▸ started

/-- The values of the predefined symbols, of the first return address and of the first function, behind the
lines that set up the stack. -/
private def firstValues (name : String) : Nat :=
  ((predefinedList ++ [(returnAddress 0, 51), ("Sys.init", 51)]).lookup name).getD 0

private theorem firstValues_standard : Standard firstValues := by decide

/-- The lines for a base, from the beginning of the memory of words on. -/
private theorem loaded_start {base : Nat} (placed : Placed firstValues 0 (startBlock 0 base "Sys.init")) :
    Loaded (romOf (words firstValues (startBlock 0 base "Sys.init"))) firstValues 0
      (startBlock 0 base "Sys.init") := by
  have loaded := loaded_romOf [] [] placed
  rwa [List.append_nil] at loaded

/-- With the standard settings the first frame is sound. -/
theorem standard_stack_starts : ∃ settings, Settings.read "\x7b\x7d" = .ok settings ∧
    ∀ store : Store, ∃ after : Store,
      (Machine.step (romOf (words firstValues (startBlock 0 256 "Sys.init"))))^[51] ⟨store, 0⟩ =
          ⟨after, 51⟩ ∧
        Started store.memory after.memory settings.stackBase 51 := by
  have accepted : Settings.read "\x7b\x7d" = .ok {} := by rfl
  have emitted : (({ annotate := false } : Lowering).bootstrap 256 "Sys.init").lines.toList =
      [] ++ startBlock 0 256 "Sys.init" := rfl
  have sound := bootstrap_starts_iff accepted emitted firstValues_standard
    (loaded_start (by decide)) (by decide) (by decide)
  have behind : firstValues (returnAddress 0) = 51 := by decide
  have entry : firstValues "Sys.init" = 51 := by decide
  have run := sound.2.mpr (by decide)
  rw [behind, entry] at run
  exact ⟨_, accepted, run⟩

/-- **A stack at the first segment register** is accepted, and setting it up loses what a segment register
held. -/
theorem low_stack_overwrites_registers :
    ∃ settings, Settings.read "\x7b\"stack_base\": 1\x7d" = .ok settings ∧ settings.stackBase = 1 ∧
      ∃ after : Store,
        (Machine.step (romOf (words firstValues (startBlock 0 1 "Sys.init"))))^[51]
            ⟨⟨0, 0, fun _ => 0⟩, 0⟩ = ⟨after, 51⟩ ∧
          ¬ Started (fun _ => 0) after.memory settings.stackBase 51 := by
  have accepted : Settings.read "\x7b\"stack_base\": 1\x7d" = .ok { stackBase := 1 } := by rfl
  have behind : firstValues (returnAddress 0) = 51 := by decide
  have entry : firstValues "Sys.init" = 51 := by decide
  have addressable := addressable_startBlock firstValues_standard (by decide : 1 ≤ largestConstant)
    (by decide : firstValues (returnAddress 0) ≤ largestConstant)
    (by decide : firstValues "Sys.init" ≤ largestConstant)
  obtain ⟨-, steps⟩ := steps_startBlock ⟨0, 0, fun _ => 0⟩ (loaded_start (by decide)) addressable
  rw [entry] at steps
  refine ⟨_, accepted, rfl, _, steps, fun started => ?_⟩
  rw [effect_startFront firstValues_standard _ (by decide) (by decide), behind] at started
  rcases started_of_low (fun _ => 0) 51 (by decide : 0 < 1) (by decide) with this | that
  · exact absurd (this.symm.trans started.this) (by decide)
  · exact absurd (that.symm.trans started.that) (by decide)

end JackToolchain.Hack
