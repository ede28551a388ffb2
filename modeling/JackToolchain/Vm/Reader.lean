import JackToolchain.Error
import JackToolchain.Text.Numeral
import JackToolchain.Vm.Instruction

/-!
# Reading stack-machine code

The inverse of the written form, more liberal in what may stand around an instruction.

* `Instruction.ofWords?` — the instruction that a list of words spells.
* `Instruction.read` — one instruction; blanks around it and between its words do not count.
* `read` — a whole text, in which blank lines and `//` comments do not count.

An operand is a numeral up to `largestOperand`.  Whether the machine can carry an instruction out is
not decided here.
-/

namespace JackToolchain.Vm

open Text

/-- The largest operand that can be written. -/
def largestOperand : Nat := 65535

/-- The numeral of an operand. -/
def operand? (word : String) : Option Nat := natural? largestOperand word.toList

/-- The instruction that words spell, if any.  A single word is an operation or `return`; names may
be any word. -/
def Instruction.ofWords? : List String → Option Instruction
  | ["return"] => some .return_
  | [word] => .operate <$> Operation.ofText? word
  | ["push", segment, index] => .push <$> Segment.ofText? segment <*> operand? index
  | ["pop", segment, index] => .pop <$> Segment.ofText? segment <*> operand? index
  | ["label", name] => some (.label name)
  | ["goto", name] => some (.goto name)
  | ["if-goto", name] => some (.ifGoto name)
  | ["call", name, count] => .call name <$> operand? count
  | ["function", name, count] => .function name <$> operand? count
  | _ => none

/-- One instruction, found on the line with the given number.  What is no instruction is reported
without the blanks around it. -/
def Instruction.read (line : Nat) (cs : List Char) : Except Error Instruction :=
  match ofWords? ((words cs).map String.ofList) with
  | some instruction => .ok instruction
  | none => .error (.unsupported line (String.ofList (trim cs)))

/-- The code that a text spells, or its first line that is no instruction. -/
def read (source : String) : Except Error (List Instruction) :=
  (codeLines source).mapM fun (line, text) => Instruction.read line text

end JackToolchain.Vm
