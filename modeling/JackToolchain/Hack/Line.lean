import JackToolchain.Hack.Compute

/-!
# Assembly lines

The lines that are generated: comments, label declarations, and the two kinds of instruction.

* `Target` — what an address instruction loads: a number, or the value of a symbol.
* `Line` — a line, and its written form.
* `Line.set` — the shorthand for a computation whose result goes somewhere and never jumps.
-/

namespace JackToolchain.Hack

/-- What an address instruction loads. -/
inductive Target where
  | number (value : Nat)
  | symbol (name : String)
  deriving DecidableEq

/-- The written form of a target. -/
def Target.text : Target → String
  | .number value => toString value
  | .symbol name => name

/-- A line of generated assembly. -/
inductive Line where
  | comment (text : String)
  /-- Declares a label. -/
  | label (name : String)
  /-- Loads the register `A`. -/
  | address (target : Target)
  /-- Computes. -/
  | compute (instruction : Compute)
  deriving DecidableEq

namespace Line

/-- The written form of a line. -/
def text : Line → String
  | comment content => s!"// {content}"
  | label name => s!"({name})"
  | address target => s!"@{target.text}"
  | compute instruction => instruction.text

/-- Loads the value of a symbol. -/
def symbol (name : String) : Line := .address (.symbol name)

/-- Loads a number. -/
def number (value : Nat) : Line := .address (.number value)

/-- Computes into a destination. -/
def set (destination : Destination) (computation : Computation) : Line :=
  .compute { destination, computation }

/-- Jumps to where `A` points, depending on the sign of `D`. -/
def jumpIf (jump : Jump) : Line := .compute { computation := .x, jump }

/-- Jumps to where `A` points. -/
def jumpAlways : Line := .compute { computation := .zero, jump := .always }

/-- Computes into `A`. -/
def setA (computation : Computation) : Line := set { a := true } computation

/-- Computes into `D`. -/
def setD (computation : Computation) : Line := set { d := true } computation

/-- Computes into the cell that `A` addresses. -/
def setM (computation : Computation) : Line := set { m := true } computation

/-- Computes into `A` and into the cell that `A` addressed. -/
def setAM (computation : Computation) : Line := set { a := true, m := true } computation

end Line

end JackToolchain.Hack
