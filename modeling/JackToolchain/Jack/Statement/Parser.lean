import JackToolchain.Jack.Expression.Parser
import JackToolchain.Jack.Statement

/-!
# Reading statements

* `Parser.statement` — the statement that follows, if any: statements are recognised by their first
  word.
* `Parser.statements` — statements as long as they follow.

A branching statement takes its number when its first word is seen, before anything behind that word
is looked at.  A plain assignment looks its target up after its value, an assignment to an element
before the index.
-/

namespace JackToolchain.Jack.Parser

/-- An expression of which nothing has been read yet. -/
def value (budget : Nat) : Parser Expression := expression (term budget) budget

/-- Statements in braces. -/
def block (statements : Parser (List Statement)) : Parser (List Statement) := do
  expectSymbol '{'
  let body ← statements
  expectSymbol '}'
  return body

/-- The condition of a branch or loop. -/
def condition (budget : Nat) : Parser Expression := do
  expectSymbol '('
  let condition ← value budget
  expectSymbol ')'
  return condition

/-- An assignment. -/
def assignment (budget : Nat) : Parser Statement := do
  expectKeyword .let_
  let name ← identifier
  if ← eatSymbol '[' then
    let array ← place name
    let index ← value budget
    expectSymbol ']'
    expectSymbol '='
    let value ← value budget
    expectSymbol ';'
    return .assignElement array index value
  else
    expectSymbol '='
    let value ← value budget
    let target ← place name
    expectSymbol ';'
    return .assign target value

/-- A branch. -/
def branch (statements : Parser (List Statement)) (budget : Nat) : Parser Statement := do
  let number ← freshLabel
  expectKeyword .if_
  let condition ← condition budget
  let whenTrue ← block statements
  let whenFalse ← if ← eatKeyword .else_ then block statements else pure []
  return .branch number condition whenTrue whenFalse

/-- A loop. -/
def loop (statements : Parser (List Statement)) (budget : Nat) : Parser Statement := do
  let number ← freshLabel
  expectKeyword .while_
  let condition ← condition budget
  return .loop number condition (← block statements)

/-- A call as a statement. -/
def callStatement (budget : Nat) : Parser Statement := do
  expectKeyword .do_
  let call ← call (value budget) budget
  expectSymbol ';'
  return .run call

/-- A return. -/
def leave (budget : Nat) : Parser Statement := do
  expectKeyword .return_
  let value ← if ← isNext (.symbol ';') then pure none else some <$> value budget
  expectSymbol ';'
  return .leave value

/-- The statement that follows, if any. -/
def statement : Nat → Parser (Option Statement)
  | 0 => return none
  | budget + 1 => do
    match ← peek? with
    | some (.keyword .let_) => some <$> assignment budget
    | some (.keyword .if_) => some <$> branch (many (statement budget) budget) budget
    | some (.keyword .while_) => some <$> loop (many (statement budget) budget) budget
    | some (.keyword .do_) => some <$> callStatement budget
    | some (.keyword .return_) => some <$> leave budget
    | _ => return none

/-- Statements as long as they follow. -/
def statements (budget : Nat) : Parser (List Statement) := many (statement budget) budget

end JackToolchain.Jack.Parser
