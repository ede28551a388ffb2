import JackToolchain.Error
import JackToolchain.Text.Blank

/-!
# Compute instructions

The instructions of the machine that compute: what is computed, where the result goes, and when it
makes the machine jump.

* `Word` — sixteen bits.
* `Computation` — one of the 28 computations.  Its first input is the register `D`, its second either
  the register `A` or the memory cell `M` that `A` addresses.
* `Destination` — the registers that take the result.
* `Jump` — the signs of the result on which the machine jumps.
* `Compute` — an instruction; `text` writes it, `read` reads it, `encode` gives its word.

Each part has a table of spellings, from which the text is both written and read, and a table of
bits.
-/

namespace JackToolchain.Hack

/-- A machine word. -/
abbrev Word := BitVec 16

/-- Where the second input of a computation comes from. -/
inductive Source where
  /-- The register `A`. -/
  | address
  /-- The memory cell that `A` addresses. -/
  | memory
  deriving DecidableEq

namespace Source

/-- The letter of a source. -/
def text : Source → String
  | address => "A"
  | memory => "M"

/-- The bit that selects a source. -/
def bit : Source → BitVec 1
  | address => 0
  | memory => 1

end Source

/-! ## Computations -/

/-- What is computed from the two inputs `x` and `y`. -/
inductive Computation where
  | zero
  | one
  | minusOne
  | x
  | notX
  | negX
  | xPlusOne
  | xMinusOne
  | y (source : Source)
  | notY (source : Source)
  | negY (source : Source)
  | yPlusOne (source : Source)
  | yMinusOne (source : Source)
  | xPlusY (source : Source)
  | xMinusY (source : Source)
  | yMinusX (source : Source)
  | xAndY (source : Source)
  | xOrY (source : Source)
  deriving DecidableEq

namespace Computation

/-- The computations that take their second input from a source. -/
def allWith (source : Source) : List Computation :=
  [y source, notY source, negY source, yPlusOne source, yMinusOne source, xPlusY source,
    xMinusY source, yMinusX source, xAndY source, xOrY source]

/-- Every computation once. -/
def all : List Computation :=
  [zero, one, minusOne, x, notX, negX, xPlusOne, xMinusOne] ++ allWith .address ++ allWith .memory

/-- The spelling in which a computation is written. -/
def text : Computation → String
  | zero => "0"
  | one => "1"
  | minusOne => "-1"
  | x => "D"
  | notX => "!D"
  | negX => "-D"
  | xPlusOne => "D+1"
  | xMinusOne => "D-1"
  | y s => s.text
  | notY s => "!" ++ s.text
  | negY s => "-" ++ s.text
  | yPlusOne s => s.text ++ "+1"
  | yMinusOne s => s.text ++ "-1"
  | xPlusY s => "D+" ++ s.text
  | xMinusY s => "D-" ++ s.text
  | yMinusX s => s.text ++ "-D"
  | xAndY s => "D&" ++ s.text
  | xOrY s => "D|" ++ s.text

/-- The other spelling of a commutative computation. -/
def otherText? : Computation → Option String
  | xPlusOne => some "1+D"
  | yPlusOne s => some ("1+" ++ s.text)
  | xPlusY s => some (s.text ++ "+D")
  | xAndY s => some (s.text ++ "&D")
  | xOrY s => some (s.text ++ "|D")
  | _ => none

/-- Whether a word spells a computation. -/
def isSpelled (computation : Computation) (word : String) : Bool :=
  computation.text == word || computation.otherText? == some word

/-- The computation that a word spells. -/
def ofText? (word : String) : Option Computation := all.find? (·.isSpelled word)

/-- The source of the second input; computations without one read the register. -/
def source : Computation → Source
  | y s | notY s | negY s | yPlusOne s | yMinusOne s | xPlusY s | xMinusY s | yMinusX s | xAndY s
  | xOrY s => s
  | _ => .address

/-- The six control bits: clear and negate the first input, clear and negate the second, add rather
than conjoin, negate the result. -/
def control : Computation → BitVec 6
  | zero => 0b101010
  | one => 0b111111
  | minusOne => 0b111010
  | x => 0b001100
  | notX => 0b001101
  | negX => 0b001111
  | xPlusOne => 0b011111
  | xMinusOne => 0b001110
  | y _ => 0b110000
  | notY _ => 0b110001
  | negY _ => 0b110011
  | yPlusOne _ => 0b110111
  | yMinusOne _ => 0b110010
  | xPlusY _ => 0b000010
  | xMinusY _ => 0b010011
  | yMinusX _ => 0b000111
  | xAndY _ => 0b000000
  | xOrY _ => 0b010101

/-- The cell that `A` addresses, unchanged. -/
abbrev m : Computation := y .memory

/-- The register `A`, unchanged. -/
abbrev a : Computation := y .address

/-- The register `D`, unchanged. -/
abbrev d : Computation := x

end Computation

/-! ## Destinations -/

/-- Which of `A`, `D` and `M` take the result. -/
structure Destination where
  a : Bool := false
  d : Bool := false
  m : Bool := false
  deriving DecidableEq

namespace Destination

/-- The spelling in which a destination is written. -/
def text (destination : Destination) : String :=
  (if destination.a then "A" else "") ++ (if destination.d then "D" else "") ++
    (if destination.m then "M" else "")

/-- The three destination bits. -/
def bits (destination : Destination) : BitVec 3 :=
  BitVec.ofBool destination.a ++ BitVec.ofBool destination.d ++ BitVec.ofBool destination.m

/-- The destination with one letter more, unless it is no letter or already there. -/
def addLetter? (destination : Destination) (letter : Char) : Option Destination :=
  match letter with
  | 'A' => if destination.a then none else some { destination with a := true }
  | 'D' => if destination.d then none else some { destination with d := true }
  | 'M' => if destination.m then none else some { destination with m := true }
  | _ => none

/-- The destination that letters spell: any order, each letter at most once. -/
def ofLetters? (letters : List Char) : Option Destination := letters.foldlM addLetter? {}

end Destination

/-! ## Jumps -/

/-- When the machine jumps. -/
inductive Jump where
  | never | ifPositive | ifZero | ifNotNegative | ifNegative | ifNotZero | ifNotPositive | always
  deriving DecidableEq

namespace Jump

/-- Every jump once. -/
def all : List Jump :=
  [never, ifPositive, ifZero, ifNotNegative, ifNegative, ifNotZero, ifNotPositive, always]

/-- The spelling of a jump; what never jumps is not spelled. -/
def text : Jump → String
  | never => ""
  | ifPositive => "JGT"
  | ifZero => "JEQ"
  | ifNotNegative => "JGE"
  | ifNegative => "JLT"
  | ifNotZero => "JNE"
  | ifNotPositive => "JLE"
  | always => "JMP"

/-- The jump that a word spells. -/
def ofText? (word : String) : Option Jump := all.find? (·.text == word)

/-- The three jump bits: on a negative result, on zero, on a positive result. -/
def bits : Jump → BitVec 3
  | never => 0b000
  | ifPositive => 0b001
  | ifZero => 0b010
  | ifNotNegative => 0b011
  | ifNegative => 0b100
  | ifNotZero => 0b101
  | ifNotPositive => 0b110
  | always => 0b111

@[simp] theorem ofText?_text (jump : Jump) : ofText? jump.text = some jump := by
  cases jump <;> decide

end Jump

/-! ## Instructions -/

/-- A compute instruction. -/
structure Compute where
  destination : Destination := {}
  computation : Computation
  jump : Jump := .never
  deriving DecidableEq

namespace Compute

/-- The written form: destination and jump are left out when empty. -/
def text (compute : Compute) : String :=
  (if compute.destination = {} then "" else compute.destination.text ++ "=") ++
    compute.computation.text ++
    (if compute.jump = .never then "" else ";" ++ compute.jump.text)

/-- The word of an instruction.  Its three leading bits are set. -/
def encode (compute : Compute) : Word :=
  0b111#3 ++ compute.computation.source.bit ++ compute.computation.control ++
    compute.destination.bits ++ compute.jump.bits

/-- What stands in front of a separator and what behind it; nothing in front of it if it does not
occur. -/
def splitFront (separator : Char) (cs : List Char) : List Char × List Char :=
  match cs.dropWhile (· != separator) with
  | [] => ([], cs)
  | _ :: behind => (cs.takeWhile (· != separator), behind)

/-- What stands in front of a separator and what behind it; nothing behind it if it does not
occur. -/
def splitBehind (separator : Char) (cs : List Char) : List Char × List Char :=
  (cs.takeWhile (· != separator), (cs.dropWhile (· != separator)).tail)

/-- Reads an instruction.  Blanks count nowhere.  The destination ends at the first equals sign, the
jump begins behind the first semicolon after that; the computation is looked at first, then the
destination, then the jump. -/
def read (cs : List Char) : Except Assembly Compute :=
  let (destination, rest) := splitFront '=' (cs.filter (!Text.isBlank ·))
  let (computation, jump) := splitBehind ';' rest
  match Computation.ofText? (String.ofList computation) with
  | none => .error (.unknownComputation (String.ofList computation))
  | some c =>
    match Destination.ofLetters? destination with
    | none => .error (.unknownDestination (String.ofList destination))
    | some d =>
      match Jump.ofText? (String.ofList jump) with
      | none => .error (.unknownJump (String.ofList jump))
      | some j => .ok ⟨d, c, j⟩

end Compute

end JackToolchain.Hack
