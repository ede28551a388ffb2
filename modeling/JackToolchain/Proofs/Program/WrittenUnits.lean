import JackToolchain.Proofs.Jack.WritableCode
import JackToolchain.Proofs.Program.Processing

/-!
# Written units

Compiled code can be taken from its written form, and nothing changes.

## Main Definitions

* `CompiledUnit.written` — the code of a unit as a source, under the same name.
* `Program.written` — a program whose units are all taken from the written form of their code.
* `Product.asCode` — a product whose units all were stack-machine code.

## Main Statements

* `SourceUnit.isWritable_of_compile` — the code of a compiled unit is writable.
* `process_written` — taking all units from their written form gives the same product.
* `written_code_reads_back` — writing code down and reading it again loses nothing.

## Design Notes

Units share the numbers of labels, so a class behind one whose code is read would be given other labels.
A program is therefore written as a whole; each unit by itself can be read in any session.
-/

namespace JackToolchain

open Hack Jack Vm Text

/-! ## Written form of a unit -/

/-- The written form of the code of a unit, under the same name. -/
def CompiledUnit.written (unit : CompiledUnit) : SourceUnit := ⟨unit.name, .vm, Vm.render unit.code⟩

/-- A unit whose source is its code. -/
def CompiledUnit.asCode (unit : CompiledUnit) : CompiledUnit := { unit with kind := .vm }

/-- The product of units whose source is their code. -/
def Product.asCode (product : Product) : Product :=
  { product with units := product.units.map CompiledUnit.asCode }

/-- A program of which all units are taken from the written form of their code. -/
def Program.written (program : Program) (settings : Settings) : Program :=
  { program with units := (program.compile settings).units.map CompiledUnit.written }

/-! ## Code of units -/

/-- **The code of a compiled unit** is writable, if the names of the library routines are words. -/
theorem SourceUnit.isWritable_of_compile {unit : SourceUnit} {session : Session}
    {code : List Instruction} (routines : ∀ name ∈ session.library.names, IsWord name)
    (compiled : (unit.compile session).1 = .ok code) : ∀ i ∈ code, i.IsWritable := by
  cases kind : unit.kind with
  | jack =>
      obtain ⟨cls, holds, rfl⟩ := SourceUnit.holds_of_compile kind compiled
      exact Written.Class.isWritable routines holds.proper holds.withinLimits session.nextLabel
  | vm =>
      rw [SourceUnit.compile, kind] at compiled
      exact isWritable_of_read compiled

/-! ## Programs -/

/-- The written form of a unit is read in any session, and leaves it as it is. -/
theorem CompiledUnit.compile_written {unit : CompiledUnit}
    (writable : ∀ i ∈ unit.code, i.IsWritable) (session : Session) :
    unit.written.compile session = (.ok unit.code, session) :=
  congrArg (·, session) (read_render writable)

/-- Written units compile to their code. -/
theorem compileUnits_written {units : List CompiledUnit}
    (writable : ∀ unit ∈ units, ∀ i ∈ unit.code, i.IsWritable) (session : Session) :
    compileUnits session (units.map CompiledUnit.written) = (units.map CompiledUnit.asCode, []) := by
  induction units with
  | nil => rfl
  | cons unit rest ih =>
      obtain ⟨here, others⟩ := List.forall_mem_cons.mp writable
      rw [List.map_cons, compileUnits, unit.compile_written here]
      dsimp only
      rw [ih others]
      rfl

/-- Lowering does not ask what the sources were. -/
theorem lowerUnits_asCode (units : List CompiledUnit) (lowering : Lowering) :
    lowerUnits lowering (units.map CompiledUnit.asCode) = lowerUnits lowering units := by
  induction units generalizing lowering with
  | nil => rfl
  | cons unit rest ih =>
      rw [List.map_cons, lowerUnits, lowerUnits]
      dsimp only [CompiledUnit.asCode]
      cases lowering.addUnit unit.name unit.code with
      | ok lowering => exact ih lowering
      | error refusal =>
          dsimp only
          rw [ih]

section Programs

variable {program : Program} {settings : Settings}

/-- A written program compiles to the same code. -/
theorem Program.compile_written
    (writable : ∀ unit ∈ (program.compile settings).units, ∀ i ∈ unit.code, i.IsWritable)
    (succeeded : (program.compile settings).succeeded = true) :
    (program.written settings).compile settings = (program.compile settings).asCode := by
  cases results : compileUnits { library := settings.library } program.units with
  | mk units failures =>
      have compiled : program.compile settings =
          { units, failures, progress := units.map fun unit => .compiled unit.name unit.code.length } := by
        unfold Program.compile
        rw [results]
      rw [compiled] at writable succeeded
      obtain rfl : failures = [] := List.isEmpty_iff.mp succeeded
      rw [Program.written, compiled, Program.compile]
      dsimp only
      rw [compileUnits_written writable, Product.asCode, List.map_map]
      rfl

/-- Assembly and words are made of the code alone. -/
theorem Program.link_asCode (emit : Emit) (product : Product) :
    (program.written settings).link settings emit product.asCode =
      (program.link settings emit product).asCode := by
  have opening : (program.written settings).opening settings = program.opening settings := rfl
  unfold Program.link Product.asCode
  dsimp only
  rw [opening, lowerUnits_asCode]
  split
  · rfl
  · cases emit with
    | vm | asm => rfl
    | hack =>
        unfold Program.assemble
        dsimp only
        split <;> rfl

/-- **Taking all units from their written form** gives the same product. -/
theorem Program.process_written
    (writable : ∀ unit ∈ (program.compile settings).units, ∀ i ∈ unit.code, i.IsWritable)
    (succeeded : (program.compile settings).succeeded = true) (emit : Emit) :
    (program.written settings).process settings emit = (program.process settings emit).asCode := by
  unfold Program.process
  dsimp only
  rw [Program.compile_written writable succeeded]
  -- whether there is anything to link depends on the failures alone
  have unchanged : (program.compile settings).asCode.succeeded =
    (program.compile settings).succeeded := rfl
  rw [unchanged]
  split
  · rfl
  · exact program.link_asCode emit _

end Programs

/-! ## Faithfulness -/

/-- **Writing code down loses nothing.**  Code is read back exactly if its names are words and its numbers
are operands; whatever is read from a text is such code.  If the library routines have words for their
names, the code of an accepted text therefore gives the same assembly when it is taken from its written
form, in any session and behind any assembly; and so does a program whose units all are. -/
theorem written_code_reads_back :
    (∀ code : List Instruction,
      Vm.read (Vm.render code) = .ok code ↔ ∀ i ∈ code, i.IsWritable) ∧
    (∀ (source : String) (code : List Instruction), Vm.read source = .ok code →
      Vm.read (Vm.render code) = .ok code) ∧
    (∀ (session : Session) (source : String) (compiled : CompiledClass),
      (∀ name ∈ session.library.names, IsWord name) → (session.compile source).1 = .ok compiled →
      ∀ (name : String) (other : Session) (lowering : Lowering),
        lowerUnits lowering (compileUnits other [⟨name, .vm, Vm.render compiled.code⟩]).1 =
          lowerUnits lowering [⟨name, .jack, compiled.code⟩]) ∧
    ∀ (program : Program) (settings : Settings),
      (∀ name ∈ settings.library.names, IsWord name) →
      (program.compile settings).succeeded = true →
      ∀ emit, (program.written settings).process settings emit = (program.process settings emit).asCode := by
  refine ⟨fun code => read_render_iff, ?_, ?_, ?_⟩
  · intro source code found
    exact read_render (isWritable_of_read found)
  · intro session source compiled routines accepted name other lowering
    have writable := Written.isWritable_of_compile routines accepted
    have read := compileUnits_written (List.forall_mem_singleton.mpr writable :
      ∀ unit ∈ [(⟨name, .jack, compiled.code⟩ : CompiledUnit)], ∀ i ∈ unit.code, i.IsWritable) other
    have same := lowerUnits_asCode [⟨name, .jack, compiled.code⟩] lowering
    rw [← same]
    exact congrArg (fun results => lowerUnits lowering results.1) read
  · intro program settings routines succeeded emit
    refine Program.process_written (fun unit member => ?_) succeeded emit
    obtain ⟨source, -, -, before, library, compiled⟩ := compiled_of_mem_units member
    exact source.isWritable_of_compile (library ▸ routines) compiled

/-- Code that is not written as it would be here. -/
private def looseText : String :=
  "function Sys.init 0\n  push constant +007 // seven\n\ncall Main.triple 1\r\nreturn"

private def callingCode : List Instruction :=
  [.function "Sys.init" 0, .push .constant 7, .call "Main.triple" 1, .return_]

private def triplingText : String :=
  "class Main \x7b function int triple(int n) \x7b return n * 3; \x7d \x7d"

private def triplingCode : List Instruction :=
  [.function "Main.triple" 0, .push .argument 0, .push .constant 3, .call "Math.multiply" 2, .return_]

/-- A class, and code that calls it. -/
private def triplingProgram : Program :=
  ⟨"Tripling", true, [⟨"Main", .jack, triplingText⟩, ⟨"Sys", .vm, looseText⟩]⟩

/-- The tokens of the class. -/
private def triplingTokens : List Token :=
  [.keyword .class_, .identifier "Main", .symbol '{', .keyword .function, .keyword .int, .identifier "triple",
    .symbol '(', .keyword .int, .identifier "n", .symbol ')', .symbol '{', .keyword .return_, .identifier "n",
    .symbol '*', .integer 3, .symbol ';', .symbol '}', .symbol '}']

theorem tripling_reads_back :
    (Vm.read looseText = .ok callingCode ∧ Vm.read (Vm.render callingCode) = .ok callingCode) ∧
      (∀ i ∈ callingCode, i.IsWritable) ∧
      (((⟨{}, 0⟩ : Session).compile triplingText).1 = .ok ⟨"Main", triplingCode⟩ ∧
        ∀ lowering, lowerUnits lowering
            (compileUnits ⟨{}, 5⟩ [⟨"Main", .vm, Vm.render triplingCode⟩]).1 =
          lowerUnits lowering [⟨"Main", .jack, triplingCode⟩]) ∧
      (triplingProgram.compile {}).succeeded = true ∧
      (triplingProgram.written {}).process {} .hack = (triplingProgram.process {} .hack).asCode := by
  obtain ⟨readsBack, again, unit_same, program_same⟩ := written_code_reads_back
  have routines : ∀ name ∈ ({} : Library).names, IsWord name := by decide
  have read : Vm.read looseText = .ok callingCode := by rfl
  have written := again looseText callingCode read
  have tokens : tokenize triplingText = .ok (triplingTokens.map (⟨·, 1⟩)) := (tokenize_ofList _).trans rfl
  have accepted : ((⟨{}, 0⟩ : Session).compile triplingText).1 = .ok ⟨"Main", triplingCode⟩ := by
    rw [Session.compile, tokens]
    rfl
  have unit := unit_same ⟨{}, 0⟩ triplingText _ routines accepted "Main" ⟨{}, 5⟩
  have succeeded : (triplingProgram.compile {}).succeeded = true := by
    have units : compileUnits { library := {} } triplingProgram.units =
        ([⟨"Main", .jack, triplingCode⟩, ⟨"Sys", .vm, callingCode⟩], []) :=
      compileUnits_cons_of_ok ((SourceUnit.compile_of_tokens tokens).trans rfl)
        (compileUnits_cons_of_ok (SourceUnit.compile_of_read read) rfl)
    rw [triplingProgram.compile_of_units {} units]
    rfl
  exact ⟨⟨read, written⟩, (readsBack callingCode).mp written, ⟨accepted, unit⟩, succeeded,
    program_same triplingProgram {} routines succeeded .hack⟩

end JackToolchain
