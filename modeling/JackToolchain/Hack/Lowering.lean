import JackToolchain.Hack.Line
import JackToolchain.Vm.Instruction

/-!
# Lowering stack-machine code to assembly

The stack grows upwards in memory and `SP` holds the address of its first free cell.  `LCL`, `ARG`,
`THIS` and `THAT` hold the addresses of their segments; the temporary segment is `R5` to `R12`, and
`R13` to `R15` are scratch registers.

* `Lowering.block?` — the lines of one instruction, or none if the machine cannot carry it out.
* `Lowering` — the assembly of a program so far.
* `Lowering.add`, `Lowering.addUnit` — one instruction, one unit.
* `Lowering.bootstrap` — sets up the stack and calls the function with which the program begins.

Labels that are generated carry numbers that run through the whole program.  Labels of the source are
qualified by the function that contains them, cells of the static segment by their unit.
-/

namespace JackToolchain.Hack

open Vm Line

/-! ## Blocks -/

/-- How many cells a call saves: the return address and the four segment addresses. -/
def frameSize : Nat := 5

/-- Puts `D` on the stack. -/
def pushD : List Line := [symbol "SP", setA .m, setM .d, symbol "SP", setM (.yPlusOne .memory)]

/-- Takes the top of the stack into `D`. -/
def popD : List Line := [symbol "SP", setAM (.yMinusOne .memory), setD .m]

/-- Where a cell of a segment is found. -/
inductive Access where
  /-- The index itself is the value. -/
  | constant
  /-- The cell lies at an offset from the address in a register. -/
  | indirect (register : String)
  /-- The cell has a name. -/
  | direct (name : String)

/-- How a segment is accessed at an index in a unit; `none` if it has no such cell. -/
def access? (unit : String) (segment : Segment) (index : Nat) : Option Access :=
  match segment with
  | .constant => some .constant
  | .local_ => some (.indirect "LCL")
  | .argument => some (.indirect "ARG")
  | .this => some (.indirect "THIS")
  | .that => some (.indirect "THAT")
  | .pointer => if index = 0 then some (.direct "THIS")
    else if index = 1 then some (.direct "THAT") else none
  | .temp => if index < 8 then some (.direct s!"R{5 + index}") else none
  | .static_ => some (.direct s!"{unit}.{index}")

/-- The lines of a push. -/
def pushBlock? (unit : String) (segment : Segment) (index : Nat) : Option (List Line) :=
  match access? unit segment index with
  | some .constant =>
    if index ≤ largestConstant then some ([number index, setD .a] ++ pushD) else none
  | some (.indirect register) =>
    some ([number index, setD .a, symbol register, setA (.xPlusY .memory), setD .m] ++ pushD)
  | some (.direct name) => some ([symbol name, setD .m] ++ pushD)
  | none => none

/-- The lines of a pop.  The address is computed first and kept in `R13`. -/
def popBlock? (unit : String) (segment : Segment) (index : Nat) : Option (List Line) :=
  match access? unit segment index with
  | some .constant => none
  | some (.indirect register) =>
    some ([number index, setD .a, symbol register, setD (.xPlusY .memory), symbol "R13", setM .d] ++
      popD ++ [symbol "R13", setA .m, setM .d])
  | some (.direct name) => some (popD ++ [symbol name, setM .d])
  | none => none

/-- An operation on two operands: the upper one in `D`, the result over the lower one. -/
def binaryBlock (result : Computation) : List Line :=
  popD ++ [setA (.yMinusOne .address), setM result]

/-- An operation on the top of the stack. -/
def unaryBlock (result : Computation) : List Line :=
  [symbol "SP", setA (.yMinusOne .memory), setM result]

/-- The label behind which the `n`-th comparison fails. -/
def comparisonFails (n : Nat) : String := s!"CMP_FALSE{n}"

/-- The label behind the `n`-th comparison. -/
def comparisonEnds (n : Nat) : String := s!"CMP_END{n}"

/-- The `n`-th comparison: the difference of the operands decides, and the jump is taken when the
comparison fails. -/
def comparisonBlock (n : Nat) (inverse : Jump) : List Line :=
  popD ++
    [setA (.yMinusOne .address), setD (.yMinusX .memory), symbol (comparisonFails n), jumpIf inverse,
      symbol "SP", setA (.yMinusOne .memory), setM .minusOne, symbol (comparisonEnds n), jumpAlways,
      .label (comparisonFails n), symbol "SP", setA (.yMinusOne .memory), setM .zero,
      .label (comparisonEnds n)]

/-- An operation, the `n`-th comparison if it is one. -/
def operationBlock (n : Nat) : Operation → List Line
  | .add => binaryBlock (.xPlusY .memory)
  | .sub => binaryBlock (.yMinusX .memory)
  | .and => binaryBlock (.xAndY .memory)
  | .or => binaryBlock (.xOrY .memory)
  | .neg => unaryBlock (.negY .memory)
  | .not => unaryBlock (.notY .memory)
  | .eq => comparisonBlock n .ifNotZero
  | .gt => comparisonBlock n .ifNotPositive
  | .lt => comparisonBlock n .ifNotNegative

/-- Whether an operation is a comparison. -/
def isComparison (operation : Operation) : Bool :=
  operation == .eq || operation == .gt || operation == .lt

/-- The label to which the `n`-th call returns. -/
def returnAddress (n : Nat) : String := s!"RET_ADDRESS{n}"

/-- Puts the content of a register on the stack. -/
def saveBlock (register : String) : List Line := [symbol register, setD .m] ++ pushD

/-- The `n`-th call.  The frame holds the return address and the segment addresses of the caller; the
arguments lie below it, the locals will lie above it. -/
def callBlock (n : Nat) (name : String) (argumentCount : Nat) : List Line :=
  [symbol (returnAddress n), setD .a] ++ pushD ++
    ["LCL", "ARG", "THIS", "THAT"].flatMap saveBlock ++
    [symbol "SP", setD .m, number (frameSize + argumentCount), setD (.xMinusY .address),
      symbol "ARG", setM .d, symbol "SP", setD .m, symbol "LCL", setM .d, symbol name, jumpAlways,
      .label (returnAddress n)]

/-- Puts the next cell below `R14` back into a register. -/
def restoreBlock (register : String) : List Line :=
  [symbol "R14", setAM (.yMinusOne .memory), setD .m, symbol register, setM .d]

/-- A return.  `R14` runs down the frame and `R15` keeps the return address, which the result may
overwrite. -/
def returnBlock : List Line :=
  [symbol "LCL", setD .m, symbol "R14", setM .d, number frameSize, setA (.xMinusY .address), setD .m,
    symbol "R15", setM .d] ++ popD ++
    [symbol "ARG", setA .m, setM .d, symbol "ARG", setD (.yPlusOne .memory), symbol "SP",
      setM .d] ++
    ["THAT", "THIS", "ARG", "LCL"].flatMap restoreBlock ++
    [symbol "R15", setA .m, jumpAlways]

/-- Puts a zero on the stack. -/
def clearLocal : List Line :=
  [symbol "SP", setA .m, setM .zero, symbol "SP", setM (.yPlusOne .memory)]

/-- A function header: its label, then one zero for each local. -/
def functionBlock (name : String) (localCount : Nat) : List Line :=
  .label name :: (List.replicate localCount clearLocal).flatten

/-! ## Programs -/

/-- The assembly of a program so far. -/
structure Lowering where
  /-- Whether every instruction is echoed as a comment. -/
  annotate : Bool
  lines : Array Line := #[]
  /-- How many comparisons there are so far. -/
  comparisons : Nat := 0
  /-- How many calls there are so far. -/
  calls : Nat := 0
  /-- The unit being lowered. -/
  unit : String := ""
  /-- The function being lowered; empty in front of the first. -/
  function : String := ""

/-- An instruction that the machine cannot carry out. -/
structure Refusal where
  /-- Its position, counted from one within a unit. -/
  position : Nat
  instruction : Instruction
  /-- What was lowered before it, with its comment. -/
  reached : Lowering

/-- The error that a refusal is reported as. -/
def Refusal.error (refusal : Refusal) : Error :=
  .unsupported refusal.position refusal.instruction.text

namespace Lowering

/-- More lines at the end. -/
def emit (lowering : Lowering) (lines : List Line) : Lowering :=
  { lowering with lines := lowering.lines ++ lines }

/-- A label of the source, qualified by the function that contains it, or by the unit in front of the
first function. -/
def qualify (lowering : Lowering) (label : String) : String :=
  let scope := if lowering.function = "" then lowering.unit else lowering.function
  s!"{scope}${label}"

/-- The lines of an instruction; `none` if the machine cannot carry it out. -/
def block? (lowering : Lowering) : Instruction → Option (List Line)
  | .push segment index => pushBlock? lowering.unit segment index
  | .pop segment index => popBlock? lowering.unit segment index
  | .operate operation => some (operationBlock lowering.comparisons operation)
  | .label name => some [.label (lowering.qualify name)]
  | .goto name => some [symbol (lowering.qualify name), jumpAlways]
  | .ifGoto name => some (popD ++ [symbol (lowering.qualify name), jumpIf .ifNotZero])
  | .call name argumentCount =>
    if frameSize + argumentCount ≤ largestConstant then
      some (callBlock lowering.calls name argumentCount)
    else none
  | .function name localCount => some (functionBlock name localCount)
  | .return_ => some returnBlock

/-- Numbers and names that an instruction changes for those behind it. -/
def pass (lowering : Lowering) : Instruction → Lowering
  | .operate operation =>
    if isComparison operation then { lowering with comparisons := lowering.comparisons + 1 }
    else lowering
  | .call .. => { lowering with calls := lowering.calls + 1 }
  | .function name _ => { lowering with function := name }
  | _ => lowering

/-- The comment of an instruction, if comments are wanted. -/
def note (lowering : Lowering) (comment : String) : Lowering :=
  if lowering.annotate then lowering.emit [.comment comment] else lowering

/-- Lowers the instruction at a position. -/
def add (lowering : Lowering) (position : Nat) (instruction : Instruction) :
    Except Refusal Lowering :=
  match lowering.block? instruction with
  | some block => .ok (((lowering.note instruction.text).emit block).pass instruction)
  | none => .error ⟨position, instruction, lowering.note instruction.text⟩

/-- Lowers code from a position on, up to the first instruction that is refused. -/
def addAll (lowering : Lowering) (position : Nat) : List Instruction → Except Refusal Lowering
  | [] => .ok lowering
  | instruction :: rest =>
    match lowering.add position instruction with
    | .ok lowering => lowering.addAll (position + 1) rest
    | .error refusal => .error refusal

/-- Lowers a unit. -/
def addUnit (lowering : Lowering) (name : String) (code : List Instruction) :
    Except Refusal Lowering :=
  { lowering with unit := name, function := "" }.addAll 1 code

/-- Sets up the stack at `base` and calls `entry` without arguments. -/
def bootstrap (lowering : Lowering) (base : Nat) (entry : String) : Lowering :=
  let noted := lowering.note "bootstrap"
  { noted.emit ([number base, setD .a, symbol "SP", setM .d] ++ callBlock lowering.calls entry 0) with
    calls := lowering.calls + 1 }

/-- The assembly text. -/
def text (lowering : Lowering) : String := Text.unlines (lowering.lines.toList.map (·.text))

end Lowering

end JackToolchain.Hack
