import JackToolchain.Jack.Parser

/-!
# Reading expressions

* `Parser.term`, `Parser.expression` — the grammar of expressions.  A term is recognised by its first
  token, a name also by the token behind it.
* `Parser.call` — the three forms of a call: `f(…)` on the current object, `v.f(…)` on the object to
  which the variable `v` refers, and `C.f(…)` where no variable `C` is declared.
* `Parser.stringConstant` — characters and length of a string constant must be constants.
-/

namespace JackToolchain.Jack.Parser

/-- A binary operator and the term behind it, if an operator follows. -/
def operation (term : Parser Term) : Parser (Option (BinaryOperator × Term)) := do
  match ← peek? with
  | some (.symbol c) =>
    match BinaryOperator.ofSymbol? c with
    | some operator =>
      advance
      return some (operator, ← term)
    | none => return none
  | _ => return none

/-- A term and the operators and terms behind it. -/
def expression (term : Parser Term) (budget : Nat) : Parser Expression := do
  let first ← term
  return .chain first (← many (operation term) budget)

/-- The arguments of a call, up to the closing parenthesis. -/
def arguments {α : Type} (expression : Parser α) (budget : Nat) : Parser (List α) := do
  if ← isNext (.symbol ')') then return []
  else commaSeparated expression budget

/-- What a call calls and on which object. -/
def callee : Parser (String × Option Place) := do
  let name ← identifier
  if ← eatSymbol '.' then
    let method ← identifier
    match ← lookup? name with
    | some entry => return (s!"{entry.type}.{method}", some (.ofEntry entry))
    | none => return (s!"{name}.{method}", none)
  else
    let className := (← get).className
    return (s!"{className}.{name}", some .self)

/-- A call. -/
def call (expression : Parser Expression) (budget : Nat) : Parser Call := do
  let (callee, receiver) ← callee
  expectSymbol '('
  let arguments ← arguments expression budget
  expectSymbol ')'
  return ⟨callee, receiver, arguments⟩

/-- Whether a character has a code that a constant can hold. -/
def isNarrow (c : Char) : Bool := c.toNat ≤ largestConstant

/-- The string constant that is next.  Its characters are looked at before its length, and it is
read only when both are within bounds. -/
def stringConstant (content : String) : Parser Term := do
  match content.toList.find? (!isNarrow ·) with
  | some c => throw (.wideCharacter c)
  | none =>
    if content.toList.length ≤ largestConstant then
      advance
      return .string content.toList
    else throw (.longString content.toList.length)

/-- A term. -/
def term : Nat → Parser Term
  | 0 => stop (.described "term")
  | budget + 1 => do
    match ← peek? with
    | some (.integer value) =>
      advance
      return .integer value
    | some (.text content) => stringConstant content
    | some (.keyword .true_) =>
      advance
      return .true_
    | some (.keyword .false_) =>
      advance
      return .false_
    | some (.keyword .null) =>
      advance
      return .null
    | some (.keyword .this) =>
      advance
      return .this
    | some (.identifier name) =>
      match ← peekAt? 1 with
      | some (.symbol '[') =>
        advance
        advance
        let array ← place name
        let index ← expression (term budget) budget
        expectSymbol ']'
        return .element array index
      | some (.symbol '(') | some (.symbol '.') =>
        return (← call (expression (term budget) budget) budget).term
      | _ =>
        advance
        return .variable (← place name)
    | some (.symbol '(') =>
      advance
      let inner ← expression (term budget) budget
      expectSymbol ')'
      return .group inner
    | some (.symbol c) =>
      match UnaryOperator.ofSymbol? c with
      | some operator =>
        advance
        return .unary operator (← term budget)
      | none => stop (.described "term")
    | _ => stop (.described "term")

end JackToolchain.Jack.Parser
