import JackToolchain.Jack.Expression.Code
import JackToolchain.Jack.Expression.Parser

/-!
# Expressions in one pass

Expressions can be compiled while they are read, without a tree in between: what is read is written at once, and
operators wait on a stack on which open brackets stand as barriers.

* `Draft` — what is written so far, and the stack.
* `Barrier.term`, `Barrier.rest` — an opening parenthesis puts up a barrier and nothing else; the closing one is met
  among the operators behind some later term, and takes the nearest barrier down.
* `Barrier.expression`, `Barrier.index` — an expression on a stack of its own, and one in front of the bracket that
  closes an index.
* `Barrier.call` — a call.  Each argument has a stack of its own.

A closing bracket is compared with the nearest barrier.  It belongs to the surroundings if there is none, and is refused
if the barrier is of the other bracket.
-/

namespace JackToolchain.Jack

open Vm

/-- Code that is being written, and the stack of the expression that is being read. -/
structure Draft where
  code : List Instruction := []
  stack : OperatorStack := {}

namespace Draft

/-- Writes instructions. -/
def write (draft : Draft) (code : List Instruction) : Draft := { draft with code := draft.code ++ code }

/-- An opening bracket goes up as a barrier. -/
def enclose (draft : Draft) (bracket : Bracket) : Draft := { draft with stack := draft.stack.enclose bracket }

variable (library : Library)

/-- Writes the operators that were released. -/
def release (draft : Draft) (release : Release) : Draft where
  code := draft.code ++ release.operators.map (·.instruction library)
  stack := release.stack

/-- A new operator waits on the stack. -/
def push (draft : Draft) (operator : Operator) : Draft := draft.release library (draft.stack.push operator)

/-- A closing bracket takes the nearest barrier down. -/
def close (draft : Draft) (bracket : Bracket) : Draft := draft.release library (draft.stack.close bracket).1

/-- Everything above the nearest barrier is written. -/
def flush (draft : Draft) : Draft := draft.release library draft.stack.flush

end Draft

namespace Barrier

open Jack.Parser

/-- Stops: a bracket is still open. -/
def missing {α : Type} : Bracket → Parser α
  | .round => stop (.spelled ")")
  | .square => stop (.spelled "]")

/-- A finished expression leaves nothing on its stack. -/
def balanced (draft : Draft) : Parser Unit :=
  if draft.stack.size = 0 then return ()
  else match draft.stack.nearestBarrier? with
    | some .square => missing .square
    | _ => missing .round

/-- An expression that begins with a stack. -/
def whole (expression : Draft → Parser Draft) (stack : OperatorStack) : Parser (List Instruction) := do
  let draft ← expression { stack }
  balanced draft
  return draft.code

/-- A call. -/
def call (expression : Parser (List Instruction)) (budget : Nat) : Parser (List Instruction) := do
  let (callee, receiver) ← callee
  expectSymbol '('
  let codes ← arguments expression budget
  expectSymbol ')'
  return receiverCode receiver ++ codes.flatten ++
    [Instruction.call callee (counted (codes.length + receiver.toList.length))]

variable (library : Library)

/-- Where neither an operator nor a bracket of the expression follows.  A parenthesis may not be open there; the bracket
of an index is missed by whoever has opened it. -/
def finish (draft : Draft) : Parser Draft :=
  if draft.stack.nearestBarrier? = some .round then missing .round
  else return draft.flush library

mutual

/-- A term, or what stands between an opening parenthesis and the first operator behind it. -/
def term : Nat → Draft → Parser Draft
  | 0, _ => stop (.described "term")
  | budget + 1, draft => do
    match ← peek? with
    | some (.integer value) =>
      advance
      return draft.write [.push .constant value]
    | some (.text content) =>
      let _ ← stringConstant content
      return draft.write (stringCode library content.toList)
    | some (.keyword .true_) =>
      advance
      return draft.write [.push .constant 0, .operate .not]
    | some (.keyword .false_) =>
      advance
      return draft.write [.push .constant 0]
    | some (.keyword .null) =>
      advance
      return draft.write [.push .constant 0]
    | some (.keyword .this) =>
      advance
      return draft.write [Place.self.push]
    | some (.identifier name) =>
      match ← peekAt? 1 with
      | some (.symbol '[') =>
        advance
        advance
        let array ← place name
        let first ← term budget ((draft.enclose .square).write [array.push])
        let element ← rest budget first
        expectSymbol ']'
        return element.write loadElement
      | some (.symbol '(') | some (.symbol '.') =>
        return draft.write (← call (whole (fun draft => term budget draft >>= rest budget) {}) budget)
      | _ =>
        advance
        return draft.write [(← place name).push]
    | some (.symbol '(') =>
      advance
      term budget (draft.enclose .round)
    | some (.symbol c) =>
      match UnaryOperator.ofSymbol? c with
      | some operator =>
        advance
        term budget (draft.push library (.unary operator))
      | none => stop (.described "term")
    | _ => stop (.described "term")

/-- What follows a term: closing parentheses, and operators with the terms behind them. -/
def rest : Nat → Draft → Parser Draft
  | 0, draft => finish library draft
  | budget + 1, draft => do
    match ← peek? with
    | some (.symbol ']') =>
      match draft.stack.nearestBarrier? with
      | some .square => return draft.close library .square
      | some .round => missing .round
      | none => finish library draft
    | some (.symbol ')') =>
      match draft.stack.nearestBarrier? with
      | some .round =>
        advance
        rest budget (draft.close library .round)
      | some .square => missing .square
      | none => finish library draft
    | some (.symbol c) =>
      match BinaryOperator.ofSymbol? c with
      | some operator =>
        advance
        let behind ← term budget (draft.push library (.binary operator))
        rest budget behind
      | none => finish library draft
    | _ => finish library draft

end

/-- A term and what follows it, on a stack that may hold operators already. -/
def chain (budget : Nat) (draft : Draft) : Parser Draft := term library budget draft >>= rest library budget

/-- An expression. -/
def expression (budget : Nat) : Parser (List Instruction) := whole (chain library budget) {}

/-- The index of an element, in front of the bracket that closes it. -/
def index (budget : Nat) : Parser (List Instruction) :=
  whole (chain library budget) (({} : OperatorStack).enclose .square)

end Barrier

end JackToolchain.Jack
