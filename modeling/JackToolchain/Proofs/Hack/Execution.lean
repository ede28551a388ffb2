import JackToolchain.Hack.Assembler
import JackToolchain.Hack.Lowering
import JackToolchain.Proofs.Hack.Machine

/-!
# Executing generated lines

What the machine does on the words of generated assembly.

## Main Definitions

* `Loaded` — the words of lines stand in memory from a position on, and their labels have the values
  that these positions give them.
* `Addressable` — everything that the lines load into `A` fits an address instruction.
* `words`, `Placed`, `romOf` — a memory in which lines are loaded.
* `effect` — what lines without jumps do to the store.
* `Standard` — the predefined symbols have their values.
* `Lowering.Emits` — the lines that a lowering adds for an instruction.

## Main Statements

* `loaded_romOf` — lines whose labels are placed can be loaded.
* `steps_straight`, `run_straight` — the machine runs through lines without jumps.
* `run_jumpIf_taken`, `run_jumpIf_not_taken`, `run_jumpAlways` — the machine jumps to where `A` points,
  or goes on.

## Design Notes

Lines without jumps are a function on stores, so a block of them is understood by computing that
function; the program counter enters only where blocks are put together.
-/

namespace JackToolchain.Hack

/-! ## Lines in memory -/

/-- The number that a target stands for, given the values of the symbols. -/
def Target.value (values : String → Nat) : Target → Nat
  | .number value => value
  | .symbol name => values name

/-- How many words a line takes. -/
def Line.size : Line → Nat
  | .comment _ | .label _ => 0
  | .address _ | .compute _ => 1

/-- How many words lines take. -/
def size : List Line → Nat
  | [] => 0
  | line :: rest => line.size + size rest

/-- **Loaded lines.**  From a position on, the memory holds the words of the lines, and every label
among them has the position of the word behind it for its value. -/
def Loaded (rom : Nat → Word) (values : String → Nat) : Nat → List Line → Prop
  | _, [] => True
  | start, .comment _ :: rest => Loaded rom values start rest
  | start, .label name :: rest => values name = start ∧ Loaded rom values start rest
  | start, .address target :: rest =>
    rom start = BitVec.ofNat 16 (target.value values) ∧ Loaded rom values (start + 1) rest
  | start, .compute instruction :: rest =>
    rom start = instruction.encode ∧ Loaded rom values (start + 1) rest

/-- What a line loads into `A`, if anything, fits an address instruction. -/
def Line.Fits (values : String → Nat) : Line → Prop
  | .address target => target.value values ≤ largestConstant
  | _ => True

/-- Everything that the lines load into `A` fits an address instruction. -/
def Addressable (values : String → Nat) (lines : List Line) : Prop :=
  ∀ line ∈ lines, line.Fits values

instance (values : String → Nat) (line : Line) : Decidable (line.Fits values) :=
  match line with
  | .address target => inferInstanceAs (Decidable (target.value values ≤ largestConstant))
  | .comment _ | .label _ | .compute _ => inferInstanceAs (Decidable True)

instance (values : String → Nat) (lines : List Line) : Decidable (Addressable values lines) :=
  inferInstanceAs (Decidable (∀ line ∈ lines, line.Fits values))

@[simp] theorem size_address (target : Target) : (Line.address target).size = 1 := rfl

@[simp] theorem size_compute (instruction : Compute) : (Line.compute instruction).size = 1 := rfl

@[simp] theorem size_label (name : String) : (Line.label name).size = 0 := rfl

@[simp] theorem size_comment (text : String) : (Line.comment text).size = 0 := rfl

section Append

variable {rom : Nat → Word} {values : String → Nat} {front back : List Line}

@[simp] theorem size_nil : size [] = 0 := rfl

@[simp] theorem size_cons (line : Line) (lines : List Line) :
    size (line :: lines) = line.size + size lines := rfl

@[simp] theorem size_append (front back : List Line) : size (front ++ back) = size front + size back := by
  induction front with
  | nil => exact (Nat.zero_add _).symm
  | cons line rest ih => rw [List.cons_append, size_cons, size_cons, ih, Nat.add_assoc]

theorem loaded_append {start : Nat} :
    Loaded rom values start (front ++ back) ↔
      Loaded rom values start front ∧ Loaded rom values (start + size front) back := by
  induction front generalizing start with
  | nil => simp [Loaded]
  | cons line rest ih =>
      cases line <;> simp [Loaded, ih, Line.size, and_assoc, Nat.add_assoc]

theorem addressable_append :
    Addressable values (front ++ back) ↔ Addressable values front ∧ Addressable values back := by
  simp only [Addressable, List.mem_append, or_imp, forall_and]

@[simp] theorem addressable_nil : Addressable values [] := List.forall_mem_nil _

theorem addressable_cons {line : Line} {lines : List Line} :
    Addressable values (line :: lines) ↔ line.Fits values ∧ Addressable values lines :=
  List.forall_mem_cons

@[simp] theorem addressable_symbol {name : String} :
    Addressable values (.symbol name :: back) ↔
      values name ≤ largestConstant ∧ Addressable values back := addressable_cons

@[simp] theorem addressable_number {number : Nat} :
    Addressable values (.number number :: back) ↔
      number ≤ largestConstant ∧ Addressable values back := addressable_cons

@[simp] theorem addressable_set {destination : Destination} {computation : Computation} :
    Addressable values (.set destination computation :: back) ↔ Addressable values back :=
  addressable_cons.trans (and_iff_right trivial)

@[simp] theorem addressable_jumpAlways :
    Addressable values (.jumpAlways :: back) ↔ Addressable values back :=
  addressable_cons.trans (and_iff_right trivial)

@[simp] theorem addressable_label {name : String} :
    Addressable values (.label name :: back) ↔ Addressable values back :=
  addressable_cons.trans (and_iff_right trivial)

end Append

/-! ## Loading -/

/-- The words of lines, given the values of the symbols. -/
def words (values : String → Nat) : List Line → List Word
  | [] => []
  | .comment _ :: rest | .label _ :: rest => words values rest
  | .address target :: rest => BitVec.ofNat 16 (target.value values) :: words values rest
  | .compute instruction :: rest => instruction.encode :: words values rest

/-- The labels among the lines have the positions of the words behind them for their values. -/
def Placed (values : String → Nat) : Nat → List Line → Prop
  | _, [] => True
  | start, .label name :: rest => values name = start ∧ Placed values start rest
  | start, .comment _ :: rest => Placed values start rest
  | start, .address _ :: rest | start, .compute _ :: rest => Placed values (start + 1) rest

instance decidablePlaced (values : String → Nat) :
    (start : Nat) → (lines : List Line) → Decidable (Placed values start lines)
  | _, [] => inferInstanceAs (Decidable True)
  | start, .label name :: rest =>
    have := decidablePlaced values start rest
    inferInstanceAs (Decidable (values name = start ∧ Placed values start rest))
  | start, .comment _ :: rest => decidablePlaced values start rest
  | start, .address _ :: rest | start, .compute _ :: rest => decidablePlaced values (start + 1) rest

/-- A memory that holds words from position 0 on. -/
def romOf (words : List Word) (position : Nat) : Word := words.getD position 0

/-- The next word stands behind those in front of it. -/
theorem romOf_append (front : List Word) (word : Word) (rest : List Word) :
    romOf (front ++ word :: rest) front.length = word := by
  rw [romOf, List.getD_eq_getElem?_getD, List.getElem?_append_right (Nat.le_refl _), Nat.sub_self]
  rfl

/-- **Loading.**  The words of lines whose labels are placed are these lines loaded. -/
theorem loaded_romOf {values : String → Nat} {lines : List Line} (front : List Word)
    (back : List Word) (placed : Placed values front.length lines) :
    Loaded (romOf (front ++ (words values lines ++ back))) values front.length lines := by
  -- the words in front grow with the lines, so that the position is their number
  induction lines generalizing front with
  | nil => trivial
  | cons line rest ih =>
      cases line with
      | comment content => exact ih front placed
      | label name => exact ⟨placed.1, ih front placed.2⟩
      | address target =>
          refine ⟨romOf_append front _ _, ?_⟩
          have next := ih (front ++ [BitVec.ofNat 16 (target.value values)])
            (by rwa [List.length_append])
          rwa [List.append_assoc, List.length_append] at next
      | compute instruction =>
          refine ⟨romOf_append front _ _, ?_⟩
          have next := ih (front ++ [instruction.encode]) (by rwa [List.length_append])
          rwa [List.append_assoc, List.length_append] at next

/-! ## Lines without jumps -/

/-- What a line does to the store if it does not jump. -/
def Line.act (values : String → Nat) (store : Store) : Line → Store
  | .comment _ | .label _ => store
  | .address target => { store with a := BitVec.ofNat 16 (target.value values) }
  | .compute instruction => instruction.perform store

/-- What lines do to the store if none of them jumps. -/
def effect (values : String → Nat) (store : Store) (lines : List Line) : Store :=
  lines.foldl (Line.act values) store

/-- Whether control passes to the line behind this one. -/
def Line.goesOn : Line → Bool
  | .compute instruction => instruction.jump = .never
  | _ => true

section Straight

variable {rom : Nat → Word} {values : String → Nat}

@[simp] theorem effect_nil (store : Store) : effect values store [] = store := rfl

@[simp] theorem effect_cons (store : Store) (line : Line) (lines : List Line) :
    effect values store (line :: lines) = effect values (line.act values store) lines := rfl

@[simp] theorem effect_append (store : Store) (front back : List Line) :
    effect values store (front ++ back) = effect values (effect values store front) back :=
  List.foldl_append

/-- **Straight lines.**  The machine takes a step for each word of lines without jumps, and does to its
store what they do. -/
theorem steps_straight {lines : List Line} {start : Nat} (store : Store)
    (loaded : Loaded rom values start lines) (addressable : Addressable values lines)
    (straight : lines.all Line.goesOn = true) :
    (Machine.step rom)^[size lines] ⟨store, start⟩ =
      ⟨effect values store lines, start + size lines⟩ := by
  -- labels and comments take no word, every other line takes one step
  induction lines generalizing start store with
  | nil => rfl
  | cons line rest ih =>
      rw [List.all_cons, Bool.and_eq_true] at straight
      obtain ⟨fits, restAddressable⟩ := addressable_cons.mp addressable
      cases line with
      | comment content =>
          rw [effect_cons, size_cons, Line.size, Nat.zero_add]
          exact ih store loaded restAddressable straight.2
      | label name =>
          rw [effect_cons, size_cons, Line.size, Nat.zero_add]
          exact ih store loaded.2 restAddressable straight.2
      | address target =>
          obtain ⟨encoded, loaded⟩ := loaded
          have small : target.value values < 32768 := Nat.lt_succ_of_le fits
          rw [effect_cons, size_cons, Line.size, ← Nat.add_assoc, Nat.add_comm 1 (size rest),
            Function.iterate_succ_apply, step_address store small encoded]
          exact ih _ loaded restAddressable straight.2
      | compute instruction =>
          obtain ⟨encoded, loaded⟩ := loaded
          have never : instruction.jump = .never := of_decide_eq_true straight.1
          have stepped := step_compute store encoded
          rw [never] at stepped
          rw [effect_cons, size_cons, Line.size, ← Nat.add_assoc, Nat.add_comm 1 (size rest),
            Function.iterate_succ_apply, stepped]
          exact ih _ loaded restAddressable straight.2

/-- The machine runs through lines without jumps. -/
theorem run_straight {lines : List Line} {start : Nat} (store : Store)
    (loaded : Loaded rom values start lines) (addressable : Addressable values lines)
    (straight : lines.all Line.goesOn = true) :
    Reaches rom ⟨store, start⟩ ⟨effect values store lines, start + size lines⟩ :=
  ⟨size lines, steps_straight store loaded addressable straight⟩

/-- An instruction without a destination leaves the store alone. -/
theorem perform_of_leaves {instruction : Compute} (store : Store)
    (leaves : instruction.destination = {}) : instruction.perform store = store := by
  rw [Compute.perform, leaves]
  rfl

/-- **Jumps.**  An instruction without a destination jumps where `A` points… -/
theorem step_jump_taken {instruction : Compute} {start target : Nat} (store : Store)
    (loaded : Loaded rom values start [.compute instruction])
    (leaves : instruction.destination = {}) (points : store.a = BitVec.ofNat 16 target)
    (small : target ≤ largestConstant)
    (taken : instruction.jump.taken (instruction.result store) = true) :
    Machine.step rom ⟨store, start⟩ = ⟨store, target⟩ := by
  have stepped := step_compute store loaded.1
  have arrives : store.a.toNat = target := by
    rw [points, BitVec.toNat_ofNat]
    exact Nat.mod_eq_of_lt (Nat.lt_of_le_of_lt small (by decide))
  rwa [perform_of_leaves store leaves, if_pos taken, arrives] at stepped

theorem run_jump_taken {instruction : Compute} {start target : Nat} (store : Store)
    (loaded : Loaded rom values start [.compute instruction])
    (leaves : instruction.destination = {}) (points : store.a = BitVec.ofNat 16 target)
    (small : target ≤ largestConstant)
    (taken : instruction.jump.taken (instruction.result store) = true) :
    Reaches rom ⟨store, start⟩ ⟨store, target⟩ :=
  Reaches.step (step_jump_taken store loaded leaves points small taken)

/-- …or goes on. -/
theorem run_jump_not_taken {instruction : Compute} {start : Nat} (store : Store)
    (loaded : Loaded rom values start [.compute instruction])
    (leaves : instruction.destination = {})
    (passed : instruction.jump.taken (instruction.result store) = false) :
    Reaches rom ⟨store, start⟩ ⟨store, start + 1⟩ := by
  have stepped := step_compute store loaded.1
  rw [perform_of_leaves store leaves, if_neg (Bool.eq_false_iff.mp passed)] at stepped
  exact Reaches.step stepped

/-- A conditional jump looks at `D`. -/
theorem run_jumpIf_taken {jump : Jump} {start target : Nat} (d : Word) (memory : Memory)
    (loaded : Loaded rom values start [.jumpIf jump]) (small : target ≤ largestConstant)
    (taken : jump.taken d = true) :
    Reaches rom ⟨⟨BitVec.ofNat 16 target, d, memory⟩, start⟩
      ⟨⟨BitVec.ofNat 16 target, d, memory⟩, target⟩ :=
  run_jump_taken ⟨BitVec.ofNat 16 target, d, memory⟩ loaded rfl rfl small taken

theorem run_jumpIf_not_taken {jump : Jump} {start : Nat} (a d : Word) (memory : Memory)
    (loaded : Loaded rom values start [.jumpIf jump]) (passed : jump.taken d = false) :
    Reaches rom ⟨⟨a, d, memory⟩, start⟩ ⟨⟨a, d, memory⟩, start + 1⟩ :=
  run_jump_not_taken ⟨a, d, memory⟩ loaded rfl passed

/-- A jump without a condition is always taken. -/
theorem run_jumpAlways {start target : Nat} (d : Word) (memory : Memory)
    (loaded : Loaded rom values start [.jumpAlways]) (small : target ≤ largestConstant) :
    Reaches rom ⟨⟨BitVec.ofNat 16 target, d, memory⟩, start⟩
      ⟨⟨BitVec.ofNat 16 target, d, memory⟩, target⟩ :=
  run_jump_taken ⟨BitVec.ofNat 16 target, d, memory⟩ loaded rfl rfl small rfl

end Straight

/-! ## The shorthands -/

section Shorthands

@[simp] theorem size_symbol (name : String) : (Line.symbol name).size = 1 := rfl

@[simp] theorem size_number (number : Nat) : (Line.number number).size = 1 := rfl

@[simp] theorem size_set (destination : Destination) (computation : Computation) :
    (Line.set destination computation).size = 1 := rfl

@[simp] theorem size_jumpIf (jump : Jump) : (Line.jumpIf jump).size = 1 := rfl

@[simp] theorem size_jumpAlways : Line.jumpAlways.size = 1 := rfl

variable {values : String → Nat} (store : Store)

@[simp] theorem act_symbol (name : String) : (Line.symbol name).act values store =
    { store with a := BitVec.ofNat 16 (values name) } := rfl

@[simp] theorem act_number (number : Nat) : (Line.number number).act values store =
    { store with a := BitVec.ofNat 16 number } := rfl

@[simp] theorem act_setA (computation : Computation) :
    (Line.setA computation).act values store =
      { store with a := computation.value store.d (computation.source.input store) } := rfl

@[simp] theorem act_setD (computation : Computation) :
    (Line.setD computation).act values store =
      { store with d := computation.value store.d (computation.source.input store) } := rfl

@[simp] theorem act_setM (computation : Computation) :
    (Line.setM computation).act values store =
      { store with
        memory := Function.update store.memory (cell store.a)
          (computation.value store.d (computation.source.input store)) } := rfl

@[simp] theorem act_setAM (computation : Computation) :
    (Line.setAM computation).act values store =
      { store with
        a := computation.value store.d (computation.source.input store)
        memory := Function.update store.memory (cell store.a)
          (computation.value store.d (computation.source.input store)) } := rfl

@[simp] theorem act_label (name : String) : (Line.label name).act values store = store := rfl

end Shorthands

/-! ## Predefined symbols -/

/-- The predefined symbols have their values. -/
def Standard (values : String → Nat) : Prop :=
  ∀ symbol ∈ predefinedList, values symbol.1 = symbol.2

instance (values : String → Nat) : Decidable (Standard values) :=
  inferInstanceAs (Decidable (∀ symbol ∈ predefinedList, values symbol.1 = symbol.2))

/-- The registers that generated code names. -/
theorem Standard.registers {values : String → Nat} (standard : Standard values) :
    values "SP" = 0 ∧ values "LCL" = 1 ∧ values "ARG" = 2 ∧ values "THIS" = 3 ∧
      values "THAT" = 4 ∧ values "R13" = 13 ∧ values "R14" = 14 ∧ values "R15" = 15 := by
  refine ⟨?_, ?_, ?_, ?_, ?_, ?_, ?_, ?_⟩ <;> exact standard (_, _) (by decide)

/-! ## Emitted lines -/

namespace Lowering

/-- The lines that a lowering adds for an instruction that it accepts. -/
def Emits (lowering : Lowering) (instruction : Vm.Instruction) (lines : List Line) : Prop :=
  ∃ position after, lowering.add position instruction = .ok after ∧
    after.lines.toList = lowering.lines.toList ++ lines

/-- The comment in front of a block. -/
def notes (lowering : Lowering) (instruction : Vm.Instruction) : List Line :=
  if lowering.annotate then [.comment instruction.text] else []

theorem emit_lines (lowering : Lowering) (lines : List Line) :
    (lowering.emit lines).lines.toList = lowering.lines.toList ++ lines := by
  rw [emit]
  exact Array.toList_appendList

theorem note_lines (lowering : Lowering) (comment : String) :
    (lowering.note comment).lines.toList =
      lowering.lines.toList ++ if lowering.annotate then [.comment comment] else [] := by
  rw [note]
  split
  · exact emit_lines lowering _
  · exact (List.append_nil _).symm

theorem pass_lines (lowering : Lowering) (instruction : Vm.Instruction) :
    (lowering.pass instruction).lines = lowering.lines := by
  cases instruction with
  | operate operation =>
      rw [pass]
      split <;> rfl
  | _ => rfl

/-- The lines of an accepted instruction are its block with its comment in front. -/
theorem Emits.eq_block {lowering : Lowering} {instruction : Vm.Instruction} {lines : List Line}
    (emits : lowering.Emits instruction lines) :
    ∃ block, lowering.block? instruction = some block ∧
      lines = lowering.notes instruction ++ block := by
  obtain ⟨position, after, added, same⟩ := emits
  rw [add] at added
  split at added
  · rename_i block found
    refine ⟨block, found, ?_⟩
    obtain rfl := Except.ok.inj added
    rw [pass_lines, emit_lines, note_lines, List.append_assoc] at same
    exact (List.append_cancel_left same).symm
  · exact absurd added (by simp)

/-- A comment takes no word… -/
@[simp] theorem size_notes (lowering : Lowering) (instruction : Vm.Instruction) :
    size (lowering.notes instruction) = 0 := by
  rw [notes]
  split <;> rfl

/-- …so the block is loaded where the lines are. -/
theorem loaded_of_notes {lowering : Lowering} {instruction : Vm.Instruction} {block : List Line}
    {rom : Nat → Word} {values : String → Nat} {start : Nat}
    (loaded : Loaded rom values start (lowering.notes instruction ++ block)) :
    Loaded rom values start block := by
  have behind := (loaded_append.mp loaded).2
  rwa [size_notes, Nat.add_zero] at behind

end Lowering

end JackToolchain.Hack
