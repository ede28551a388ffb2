import JackToolchain.Counter
import JackToolchain.Jack.Class
import JackToolchain.Jack.Statement.Parser

/-!
# Reading classes

* `Parser.classVariables` — a declaration of statics or fields.
* `Parser.locals` — declarations of locals, up to one that counts no names.
* `Parser.subroutine` — a subroutine; its arguments and locals are forgotten when the next begins.
* `Parser.class_` — a class, which must be all that the text holds.
-/

namespace JackToolchain.Jack.Parser

/-- Declares the names of a declaration, which share a type and a kind, and counts them. -/
def names (type : String) (kind : Symbol.Kind) (budget : Nat) : Parser Nat := do
  let declared ← commaSeparated (do define (← identifier) type kind) budget
  return counted declared.length

/-- A type and the names declared with it, up to the semicolon. -/
def declarations (kind : Symbol.Kind) (budget : Nat) : Parser Nat := do
  let type ← typeName false
  let count ← names type kind budget
  expectSymbol ';'
  return count

/-- The kind of variable that the next word declares in a class. -/
def classVariableKind? : Parser (Option Symbol.Kind) := do
  if ← eatKeyword .static_ then return some .static_
  else if ← eatKeyword .field then return some .field
  else return none

/-- A declaration of statics or fields, if one follows. -/
def classVariables (budget : Nat) : Parser (Option Unit) := do
  match ← classVariableKind? with
  | some kind =>
    let _ ← declarations kind budget
    return some ()
  | none => return none

/-- A declaration of locals, if one follows, and how many names it has. -/
def localVariables (budget : Nat) : Parser Nat := do
  if ← eatKeyword .var then declarations .var budget else return 0

/-- Declarations of locals, up to one that counts no names: where none follows, and also behind one
whose count has begun again at zero. -/
def locals (budget : Nat) : Nat → Parser Unit
  | 0 => return ()
  | lines + 1 => do
    if 0 < (← localVariables budget) then locals budget lines

/-- One parameter. -/
def parameter : Parser Unit := do
  let type ← typeName false
  define (← identifier) type .argument

/-- The parameters of a subroutine, up to the closing parenthesis. -/
def parameters (budget : Nat) : Parser Unit := do
  unless ← isNext (.symbol ')') do
    let _ ← commaSeparated parameter budget

/-- The kind of subroutine that the next word begins. -/
def subroutineKind? : Parser (Option SubroutineKind) := do
  if ← eatKeyword .constructor_ then return some .constructor_
  else if ← eatKeyword .function then return some .function
  else if ← eatKeyword .method then return some .method
  else return none

/-- Forgets the previous subroutine.  The object that a method receives is its first argument. -/
def beginSubroutine (kind : SubroutineKind) : Parser Unit := do
  modify fun state => { state with table := state.table.clear }
  if kind = .method then define Keyword.this.text (← get).className .argument

/-- A subroutine behind the word that begins it. -/
def subroutineOf (kind : SubroutineKind) (budget : Nat) : Parser Subroutine := do
  beginSubroutine kind
  let type ← typeName true
  let name ← identifier
  expectSymbol '('
  parameters budget
  expectSymbol ')'
  expectSymbol '{'
  locals budget budget
  let localCount := (← get).table.count .var
  let body ← statements budget
  expectSymbol '}'
  return ⟨kind, name, type = Keyword.void.text, localCount, body⟩

/-- A subroutine, if one follows. -/
def subroutine (budget : Nat) : Parser (Option Subroutine) := do
  match ← subroutineKind? with
  | some kind => some <$> subroutineOf kind budget
  | none => return none

/-- A class, and the end of the text behind it. -/
def class_ (budget : Nat) : Parser Class := do
  expectKeyword .class_
  let name ← identifier
  modify fun state => { state with className := name }
  expectSymbol '{'
  let _ ← many (classVariables budget) budget
  let fields := (← get).table.count .field
  let subroutines ← many (subroutine budget) budget
  expectSymbol '}'
  unless (← get).cursor.atEnd do stop (.described "end of input")
  return ⟨name, fields, subroutines⟩

end JackToolchain.Jack.Parser
