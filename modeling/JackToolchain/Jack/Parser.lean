import JackToolchain.Jack.Cursor
import JackToolchain.Jack.Expression
import JackToolchain.Symbol.Table

/-!
# Parsing

A parser reads tokens, declares and looks up names and hands out label numbers.  It returns a result
or stops with a fault; in both cases the state it has reached is kept, so that a fault can be
reported where it happened and label numbers that were handed out stay handed out.

* `State` — position, declarations, class name, next label number.
* `Fault` — why a parser stopped; `State.report` turns it into an error at the position reached.
* `eat`, `expect` — a token that may follow, and one that must.
* `identifier`, `typeName`, `place` — names, and the cell of a variable.
* `many`, `commaSeparated` — repetition.

Repetition and nesting are bounded by a budget.  Every item and every level of nesting reads at least
one token, so a budget above the number of unread tokens is never used up.
-/

namespace JackToolchain.Jack

/-- What a parser has reached. -/
structure State where
  cursor : Cursor
  /-- The names declared so far. -/
  table : Symbol.Table := {}
  className : String := ""
  /-- The number of the next label. -/
  nextLabel : Nat := 0

/-- Why a parser stopped. -/
inductive Fault where
  /-- Something else stands at the position reached. -/
  | expected (what : Expected)
  /-- The string constant at the position reached holds a character that no constant represents. -/
  | wideCharacter (c : Char)
  /-- The string constant at the position reached has too many characters. -/
  | longString (length : Nat)
  /-- A variable that is not declared. -/
  | undefined (name : String)
  deriving DecidableEq

/-- A fault as an error at the position reached. -/
def State.report (state : State) : Fault → Error
  | .expected what => .unexpected state.cursor.line what state.cursor.peek?
  | .wideCharacter c => .wideCharacter state.cursor.line c
  | .longString length => .longString state.cursor.line length
  | .undefined name => .undefined name

/-- A computation that reads tokens. -/
abbrev Parser := EStateM Fault State

namespace Parser

/-! ## Single tokens -/

/-- The next token, which stays unread. -/
def peek? : Parser (Option Token) := return (← get).cursor.peek?

/-- The token `distance` tokens behind the next one. -/
def peekAt? (distance : Nat) : Parser (Option Token) := return (← get).cursor.peekAt? distance

/-- Reads a token. -/
def advance : Parser Unit := modify fun state => { state with cursor := state.cursor.advance }

/-- Stops: something else was expected. -/
def stop {α : Type} (what : Expected) : Parser α := throw (.expected what)

/-- Whether a token is next. -/
def isNext (token : Token) : Parser Bool := return (← peek?) == some token

/-- Reads a token if it is next, and says whether it was. -/
def eat (token : Token) : Parser Bool := do
  if ← isNext token then
    advance
    return true
  else return false

/-- Reads a token that must be next. -/
def expect (token : Token) (spelling : String) : Parser Unit := do
  unless ← eat token do stop (.spelled spelling)

/-- Reads a symbol if it is next. -/
def eatSymbol (c : Char) : Parser Bool := eat (.symbol c)

/-- Reads a reserved word if it is next. -/
def eatKeyword (k : Keyword) : Parser Bool := eat (.keyword k)

/-- Reads a symbol that must be next. -/
def expectSymbol (c : Char) : Parser Unit := expect (.symbol c) c.toString

/-- Reads a reserved word that must be next. -/
def expectKeyword (k : Keyword) : Parser Unit := expect (.keyword k) k.text

/-- Reads a name. -/
def identifier : Parser String := do
  match ← peek? with
  | some (.identifier name) =>
    advance
    return name
  | _ => stop (.described "identifier")

/-- The type that a token names: a built-in type or a class, or `void` where it is allowed. -/
def typeOf? (allowVoid : Bool) : Token → Option String
  | .identifier name => some name
  | .keyword .int => some Keyword.int.text
  | .keyword .char => some Keyword.char.text
  | .keyword .boolean => some Keyword.boolean.text
  | .keyword .void => if allowVoid then some Keyword.void.text else none
  | _ => none

/-- Reads a type. -/
def typeName (allowVoid : Bool) : Parser String := do
  match (← peek?).bind (typeOf? allowVoid) with
  | some type =>
    advance
    return type
  | none => stop (.described "type")

/-! ## Names and labels -/

/-- Declares a variable. -/
def define (name type : String) (kind : Symbol.Kind) : Parser Unit :=
  modify fun state => { state with table := state.table.define name type kind }

/-- The declaration of a name, if there is one. -/
def lookup? (name : String) : Parser (Option Symbol.Entry) := return (← get).table.lookup? name

/-- The cell of a variable, which must be declared. -/
def place (name : String) : Parser Place := do
  match ← lookup? name with
  | some entry => return Place.ofEntry entry
  | none => throw (.undefined name)

/-- Takes the next label number. -/
def freshLabel : Parser Nat :=
  modifyGet fun state => (state.nextLabel, { state with nextLabel := state.nextLabel + 1 })

/-! ## Repetition -/

/-- Reads items until none follows. -/
def many {α : Type} (item? : Parser (Option α)) : Nat → Parser (List α)
  | 0 => return []
  | budget + 1 => do
    match ← item? with
    | some item => return item :: (← many item? budget)
    | none => return []

/-- Reads items with commas between them. -/
def commaSeparated {α : Type} (item : Parser α) (budget : Nat) : Parser (List α) := do
  let first ← item
  let rest ← many (do if ← eatSymbol ',' then some <$> item else return none) budget
  return first :: rest

end Parser

end JackToolchain.Jack
