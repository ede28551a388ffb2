import JackToolchain.Program

/-!
# Stages

What becomes of a program on its way to a stage, and how that of a given program is computed.

## Main Definitions

* `Outcome` — the products that a program can end in.

## Main Statements

* `SourceUnit.compile_of_tokens`, `compileUnits_cons_of_ok`, `compileUnits_cons_of_error`, `Program.compile_of_units` —
  what is compiled of units, from the tokens of each.
* `Program.outcome` — a program ends in one of them.
* `assembled_of_succeeded` — a program that is taken to words without a failure has compiled, has been
  lowered and has been assembled.
-/

namespace JackToolchain

open Hack

/-! ## Compiling -/

section Compiling

variable {text name : String} {session after : Jack.Session} {code : List Vm.Instruction}
  {units : List CompiledUnit} {failures : List Failure}

/-- A class is compiled from its tokens. -/
theorem SourceUnit.compile_of_tokens {tokens : List Located} (read : tokenize text = .ok tokens) :
    (⟨name, .jack, text⟩ : SourceUnit).compile session =
      ((session.compileTokens tokens).1.map (·.code), (session.compileTokens tokens).2) := by
  rw [SourceUnit.compile]
  dsimp only
  rw [Jack.Session.compile, read]

/-- Code is what is read of it. -/
theorem SourceUnit.compile_of_read (read : Vm.read text = .ok code) :
    (⟨name, .vm, text⟩ : SourceUnit).compile session = (.ok code, session) :=
  congrArg (·, session) read

/-- A unit that compiles stands in front of those behind it. -/
theorem compileUnits_cons_of_ok {unit : SourceUnit} {rest : List SourceUnit}
    (compiled : unit.compile session = (.ok code, after))
    (others : compileUnits after rest = (units, failures)) :
    compileUnits session (unit :: rest) = (⟨unit.name, unit.kind, code⟩ :: units, failures) := by
  rw [compileUnits, compiled]
  dsimp only
  rw [others]

/-- So does the failure of one that does not. -/
theorem compileUnits_cons_of_error {unit : SourceUnit} {rest : List SourceUnit} {error : Error}
    (refused : unit.compile session = (.error error, after))
    (others : compileUnits after rest = (units, failures)) :
    compileUnits session (unit :: rest) = (units, ⟨unit.name, error⟩ :: failures) := by
  rw [compileUnits, refused]
  dsimp only
  rw [others]

/-- What is compiled of a program is compiled of its units. -/
theorem Program.compile_of_units (program : Program) (settings : Settings)
    (compiled : compileUnits { library := settings.library } program.units = (units, failures)) :
    program.compile settings =
      { units, failures, progress := units.map fun unit => .compiled unit.name unit.code.length } := by
  rw [Program.compile, compiled]

end Compiling

/-! ## Outcomes -/

/-- **What becomes of a program**: it stops at the first stage in which something fails, or at the one that
is wanted.  The failures are then those of that stage, and no later one has left anything. -/
inductive Outcome (program : Program) (settings : Settings) : Emit → Product → Prop where
  /-- Code was all that was wanted, or it is all that there is, since a unit did not compile. -/
  | compiled {emit : Emit} (stops : emit = .vm ∨ (program.compile settings).failures ≠ []) :
    Outcome program settings emit (program.compile settings)
  /-- A unit cannot be carried out by the machine. -/
  | unlowered {emit : Emit} {lowering : Lowering} {failures : List Failure} (wanted : emit ≠ .vm)
    (compiled : (program.compile settings).failures = [])
    (refused : lowerUnits (program.opening settings) (program.compile settings).units =
      (lowering, failures)) (some : failures ≠ []) :
    Outcome program settings emit { program.compile settings with failures }
  /-- Assembly was wanted. -/
  | lowered {lowering : Lowering}
    (compiled : (program.compile settings).failures = [])
    (lowered : lowerUnits (program.opening settings) (program.compile settings).units = (lowering, [])) :
    Outcome program settings .asm { program.compile settings with
      asm := some lowering.text
      progress := (program.compile settings).progress ++ [.lowered lowering.lines.size] }
  /-- The assembly is refused. -/
  | unassembled {lowering : Lowering} {error : Error}
    (compiled : (program.compile settings).failures = [])
    (lowered : lowerUnits (program.opening settings) (program.compile settings).units = (lowering, []))
    (refused : Hack.assemble lowering.text = .error error) :
    Outcome program settings .hack { program.compile settings with
      failures := [⟨program.name, error⟩]
      progress := (program.compile settings).progress ++ [.lowered lowering.lines.size] }
  /-- Words were wanted. -/
  | assembled {lowering : Lowering} {assembled : Assembled}
    (compiled : (program.compile settings).failures = [])
    (lowered : lowerUnits (program.opening settings) (program.compile settings).units = (lowering, []))
    (accepted : Hack.assemble lowering.text = .ok assembled) :
    Outcome program settings .hack { program.compile settings with
      asm := some lowering.text
      hack := some assembled.text
      progress := (program.compile settings).progress ++ [.lowered lowering.lines.size] ++
        [.assembled assembled.words.length] }

namespace Program

/-- **A program ends** in one of its outcomes. -/
theorem outcome (program : Program) (settings : Settings) (emit : Emit) :
    Outcome program settings emit (program.process settings emit) := by
  unfold process
  dsimp only
  split
  · rename_i stops
    refine .compiled ?_
    simpa [Product.succeeded] using stops
  · rename_i goesOn
    obtain ⟨wanted, compiled⟩ : emit ≠ .vm ∧ (program.compile settings).failures = [] := by
      simpa [Product.succeeded] using goesOn
    unfold link
    cases result : lowerUnits (program.opening settings) (program.compile settings).units with
    | mk lowering failures =>
        dsimp only
        split
        · rename_i some
          rw [compiled, List.nil_append]
          refine .unlowered wanted compiled result ?_
          simpa using some
        · rename_i none
          obtain rfl : failures = [] := by simpa using none
          cases emit with
          | vm => exact absurd rfl wanted
          | asm => exact .lowered compiled result
          | hack =>
              dsimp only [Program.assemble]
              split
              · rename_i assembled accepted
                exact .assembled compiled result accepted
              · rename_i error refused
                rw [compiled]
                exact .unassembled compiled result refused

end Program

/-- **A program that passes every stage** leaves its assembly and its words. -/
theorem process_of_accepted {program : Program} {settings : Settings} {lowering : Lowering}
    {assembled : Assembled} (compiled : (program.compile settings).failures = [])
    (lowered : lowerUnits (program.opening settings) (program.compile settings).units = (lowering, []))
    (accepted : Hack.assemble lowering.text = .ok assembled) :
    program.process settings .hack = { program.compile settings with
      asm := some lowering.text
      hack := some assembled.text
      progress := (program.compile settings).progress ++ [.lowered lowering.lines.size] ++
        [.assembled assembled.words.length] } := by
  have succeeded : (program.compile settings).succeeded = true := by
    rw [Product.succeeded, compiled]
    rfl
  have linked : program.process settings .hack = program.assemble
      { program.compile settings with
        progress := (program.compile settings).progress ++ [.lowered lowering.lines.size] }
      lowering.text := by
    rw [Program.process, succeeded, if_neg (by decide), Program.link, lowered]
    rfl
  rw [linked, Program.assemble, accepted]

/-- **Without a failure** a program that is taken to words has passed every stage. -/
theorem assembled_of_succeeded {program : Program} {settings : Settings}
    (succeeded : (program.process settings .hack).succeeded = true) :
    ∃ lowering assembled, (program.compile settings).failures = [] ∧
      lowerUnits (program.opening settings) (program.compile settings).units = (lowering, []) ∧
      assemble lowering.text = .ok assembled ∧
      (program.process settings .hack).units = (program.compile settings).units ∧
      (program.process settings .hack).asm = some lowering.text ∧
      (program.process settings .hack).hack = some assembled.text := by
  generalize ended : program.process settings .hack = product at succeeded
  have none : product.failures = [] := List.isEmpty_iff.mp succeeded
  cases ended ▸ program.outcome settings .hack with
  | compiled stops => exact absurd none (stops.resolve_left nofun)
  | unlowered _ _ _ some => exact absurd none some
  | unassembled => exact absurd none (List.cons_ne_nil _ _)
  | assembled compiled lowered accepted => exact ⟨_, _, compiled, lowered, accepted, rfl, rfl, rfl⟩

end JackToolchain
