import JackToolchain.Text.Lines

/-!
# Stack-machine instructions

The instruction set between the compiler and the assembly generator, and its written form.

* `Segment` — the eight memory segments that `push` and `pop` address.
* `Operation` — the nine operations on the top of the stack.
* `Instruction` — one instruction.
* `Instruction.text`, `render` — the written form, one instruction a line.

Every segment and every operation has one spelling, and spellings are read back by `ofText?`.
-/

namespace JackToolchain.Vm

/-- A memory segment. -/
inductive Segment where
  | constant | argument | local_ | static_ | this | that | pointer | temp
  deriving DecidableEq

namespace Segment

/-- Every segment once. -/
def all : List Segment := [constant, argument, local_, static_, this, that, pointer, temp]

/-- The spelling of a segment. -/
def text : Segment → String
  | constant => "constant"
  | argument => "argument"
  | local_ => "local"
  | static_ => "static"
  | this => "this"
  | that => "that"
  | pointer => "pointer"
  | temp => "temp"

/-- The segment with a given spelling. -/
def ofText? (word : String) : Option Segment := all.find? (·.text == word)

@[simp] theorem ofText?_text (segment : Segment) : ofText? segment.text = some segment := by
  cases segment <;> decide

theorem text_of_ofText? {word : String} {segment : Segment} (h : ofText? word = some segment) :
    segment.text = word := by
  simpa using List.find?_some h

end Segment

/-- An operation that replaces the top one or two stack cells by its result. -/
inductive Operation where
  | add | sub | neg | eq | gt | lt | and | or | not
  deriving DecidableEq

namespace Operation

/-- Every operation once. -/
def all : List Operation := [add, sub, neg, eq, gt, lt, and, or, not]

/-- The spelling of an operation. -/
def text : Operation → String
  | add => "add"
  | sub => "sub"
  | neg => "neg"
  | eq => "eq"
  | gt => "gt"
  | lt => "lt"
  | and => "and"
  | or => "or"
  | not => "not"

/-- The operation with a given spelling. -/
def ofText? (word : String) : Option Operation := all.find? (·.text == word)

@[simp] theorem ofText?_text (operation : Operation) :
    ofText? operation.text = some operation := by
  cases operation <;> decide

theorem text_of_ofText? {word : String} {operation : Operation}
    (h : ofText? word = some operation) : operation.text = word := by
  simpa using List.find?_some h

end Operation

/-- One instruction of the stack machine. -/
inductive Instruction where
  /-- Puts a cell of a segment on the stack; the constant segment holds its own indices. -/
  | push (segment : Segment) (index : Nat)
  /-- Takes the top of the stack into a cell of a segment. -/
  | pop (segment : Segment) (index : Nat)
  /-- Computes on the top of the stack. -/
  | operate (operation : Operation)
  /-- A jump target inside its function. -/
  | label (name : String)
  /-- Jumps. -/
  | goto (name : String)
  /-- Takes the top of the stack and jumps unless it is zero. -/
  | ifGoto (name : String)
  /-- Calls a function whose arguments are on top of the stack. -/
  | call (name : String) (argumentCount : Nat)
  /-- Begins a function and clears its locals. -/
  | function (name : String) (localCount : Nat)
  /-- Leaves a function with the top of the stack as its result. -/
  | return_
  deriving DecidableEq

/-- The written form of an instruction. -/
def Instruction.text : Instruction → String
  | push segment index => s!"push {segment.text} {index}"
  | pop segment index => s!"pop {segment.text} {index}"
  | operate operation => operation.text
  | label name => s!"label {name}"
  | goto name => s!"goto {name}"
  | ifGoto name => s!"if-goto {name}"
  | call name argumentCount => s!"call {name} {argumentCount}"
  | function name localCount => s!"function {name} {localCount}"
  | return_ => "return"

/-- The written form of code: one instruction a line, each line ended. -/
def render (code : List Instruction) : String := Text.unlines (code.map (·.text))

@[simp] theorem render_nil : render [] = "" := rfl

@[simp] theorem render_cons (instruction : Instruction) (code : List Instruction) :
    render (instruction :: code) = instruction.text.push '\n' ++ render code := by
  simp [render]

end JackToolchain.Vm
