import JackToolchain.Jack.Operator

/-!
# The operator stack

Operators of an expression wait on a stack until their operands have been computed.

* `Bracket` — an open bracket, which stands on the stack as a barrier.
* `Pending` — an entry of the stack: a waiting operator or a barrier.
* `push` — a new operator first releases those above the nearest barrier that bind more tightly.
* `enclose`, `close` — a barrier goes up and, when everything above it is released, comes down.
* `flush` — releases everything above the nearest barrier.

Operators that bind equally tightly do not release each other.  They leave the stack in reverse
order, so `a - b - c` is computed as `a - (b - c)`.
-/

namespace JackToolchain.Jack

/-- A bracket that can stand open in an expression. -/
inductive Bracket where
  /-- A parenthesis. -/
  | round
  /-- The bracket of an array index. -/
  | square
  deriving DecidableEq

/-- An entry of the operator stack. -/
inductive Pending where
  /-- An operator that waits for its operands. -/
  | operator (operator : Operator)
  /-- An open bracket: no operator below it is released while it stands. -/
  | barrier (bracket : Bracket)
  deriving DecidableEq

namespace Pending

/-- The operator of an entry, unless it is a barrier. -/
def operator? : Pending → Option Operator
  | .operator op => some op
  | .barrier _ => none

/-- The bracket of a barrier. -/
def barrier? : Pending → Option Bracket
  | .operator _ => none
  | .barrier bracket => some bracket

/-- Whether an entry is a barrier. -/
def isBarrier (entry : Pending) : Bool := entry.barrier?.isSome

/-- How tightly an entry binds; barriers bind least. -/
def precedence : Pending → Nat
  | .operator op => op.precedence
  | .barrier _ => 0

/-- Whether an entry must be computed before `op`: it is an operator that binds more tightly. -/
def bindsTighter (op : Operator) : Pending → Bool
  | .operator waiting => op.precedence < waiting.precedence
  | .barrier _ => false

end Pending

/-- Waiting operators and open brackets, the newest first. -/
structure OperatorStack where
  entries : List Pending := []
  deriving DecidableEq

/-- What an operation on the stack releases, in the order of computation, and the stack it
leaves. -/
structure Release where
  operators : List Operator
  stack : OperatorStack
  deriving DecidableEq

namespace OperatorStack

/-- Releases the entries on top for which a test holds. -/
def releaseWhile (stack : OperatorStack) (test : Pending → Bool) : Release where
  operators := (stack.entries.takeWhile test).filterMap Pending.operator?
  stack := ⟨stack.entries.dropWhile test⟩

/-- A new operator waits on top, once those that bind more tightly are released. -/
def push (stack : OperatorStack) (op : Operator) : Release :=
  let released := stack.releaseWhile (Pending.bindsTighter op)
  { released with stack := ⟨.operator op :: released.stack.entries⟩ }

/-- An opening bracket goes up as a barrier and releases nothing. -/
def enclose (stack : OperatorStack) (bracket : Bracket) : OperatorStack :=
  ⟨.barrier bracket :: stack.entries⟩

/-- Releases everything above the nearest barrier, which stays. -/
def flush (stack : OperatorStack) : Release := stack.releaseWhile (!·.isBarrier)

/-- Whether the top of the stack is a barrier of the given bracket. -/
def isAt (stack : OperatorStack) (bracket : Bracket) : Bool :=
  stack.entries.head? == some (.barrier bracket)

/-- A closing bracket: releases everything above the nearest barrier and takes that barrier down if
it is of the same bracket.  The second component says whether it was. -/
def close (stack : OperatorStack) (bracket : Bracket) : Release × Bool :=
  let released := stack.flush
  if released.stack.isAt bracket then
    ({ released with stack := ⟨released.stack.entries.tail⟩ }, true)
  else (released, false)

/-- The innermost open bracket. -/
def nearestBarrier? (stack : OperatorStack) : Option Bracket :=
  stack.entries.findSome? Pending.barrier?

/-- Whether an entry is on the stack. -/
def contains (stack : OperatorStack) (entry : Pending) : Bool := stack.entries.contains entry

/-- How many entries are on the stack. -/
def size (stack : OperatorStack) : Nat := stack.entries.length

@[simp] theorem flush_empty : ({} : OperatorStack).flush = ⟨[], {}⟩ := rfl

end OperatorStack

end JackToolchain.Jack
