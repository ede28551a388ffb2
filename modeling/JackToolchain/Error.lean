import JackToolchain.Token

/-!
# Errors

Everything that can be wrong with a source text, by cause, and the wording of each cause.

* `Lexical` — a text that does not fall into tokens.
* `Expected` — what the grammar allows where something else stands.
* `Assembly` — an assembly line that cannot be encoded.
* `Error` — any fault of a unit, with the line it was found on.
* `Stage` — the kind of work that found the fault; `Error.stage` classifies.
* `Error.message` — the one place where wording is decided.
-/

namespace JackToolchain

/-- A text that does not fall into tokens. -/
inductive Lexical where
  /-- A character that begins no token. -/
  | unexpectedCharacter (c : Char)
  /-- An integer constant above `largestConstant`, by its digits. -/
  | constantTooLarge (digits : String)
  /-- A string constant without its closing quote on the same line. -/
  | unterminatedString
  /-- A block comment that is never closed. -/
  | unterminatedComment
  deriving DecidableEq

/-- What the grammar allows at a position. -/
inductive Expected where
  /-- A token with one spelling. -/
  | spelled (text : String)
  /-- A class of tokens, or the end of the text, by its description. -/
  | described (what : String)
  deriving DecidableEq

/-- An assembly line that cannot be encoded. -/
inductive Assembly where
  | invalidLabel (name : String)
  | labelDeclaredTwice (name : String)
  | programTooLong
  | constantOutOfRange (numeral : String)
  | variablesExhausted
  | invalidSymbol (name : String)
  | unknownComputation (text : String)
  | unknownDestination (text : String)
  | unknownJump (text : String)
  deriving DecidableEq

/-- A fault of one unit.  Lines are counted from one; line zero stands for a text without lines. -/
inductive Error where
  /-- The text does not fall into tokens. -/
  | lexical (line : Nat) (cause : Lexical)
  /-- The grammar does not allow the token found; `none` is the end of the text. -/
  | unexpected (line : Nat) (expected : Expected) (found : Option Token)
  /-- A string constant holds a character that no constant can represent. -/
  | wideCharacter (line : Nat) (c : Char)
  /-- A string constant has more characters than a constant can count. -/
  | longString (line : Nat) (length : Nat)
  /-- A variable that is not declared. -/
  | undefined (name : String)
  /-- A stack-machine instruction that does not exist or that the machine cannot carry out. -/
  | unsupported (line : Nat) (text : String)
  /-- An assembly line that cannot be encoded. -/
  | assembly (line : Nat) (cause : Assembly)
  deriving DecidableEq

/-- The kind of work that finds a fault. -/
inductive Stage where
  | lexical | grammar | names | instructions | assembly
  deriving DecidableEq

/-- The work that found the fault.  The two limits on string constants belong to the grammar. -/
def Error.stage : Error → Stage
  | .lexical .. => .lexical
  | .unexpected .. | .wideCharacter .. | .longString .. => .grammar
  | .undefined .. => .names
  | .unsupported .. => .instructions
  | .assembly .. => .assembly

/-- The wording of a lexical fault. -/
def Lexical.message : Lexical → String
  | .unexpectedCharacter c => s!"unexpected character `{c}`"
  | .constantTooLarge digits => s!"integer constant {digits} exceeds {largestConstant}"
  | .unterminatedString => "unterminated string constant"
  | .unterminatedComment => "unterminated block comment"

/-- What is expected: a spelling stands in back quotes, a description stands by itself. -/
def Expected.message : Expected → String
  | .spelled text => s!"`{text}`"
  | .described what => what

/-- The wording of an assembly fault. -/
def Assembly.message : Assembly → String
  | .invalidLabel name => s!"invalid label `{name}`"
  | .labelDeclaredTwice name => s!"label `{name}` declared twice"
  | .programTooLong => "program exceeds ROM"
  | .constantOutOfRange numeral => s!"constant `{numeral}` out of range"
  | .variablesExhausted => "out of variable space"
  | .invalidSymbol name => s!"invalid symbol `{name}`"
  | .unknownComputation text => s!"unknown computation `{text}`"
  | .unknownDestination text => s!"unknown destination `{text}`"
  | .unknownJump text => s!"unknown jump `{text}`"

/-- The token found, or the end of the text. -/
def describeFound : Option Token → String
  | some token => token.describe
  | none => "end of input"

/-- The wording of a fault. -/
def Error.message : Error → String
  | .lexical line cause => s!"line {line}: {cause.message}"
  | .unexpected line expected found =>
    s!"line {line}: expected {expected.message}, found {describeFound found}"
  | .wideCharacter line c => s!"line {line}: expected character below 32768, found `{c}`"
  | .longString line length =>
    s!"line {line}: expected string of at most 32767 characters, found {length} characters"
  | .undefined name => s!"undefined symbol `{name}`"
  | .unsupported line text => s!"line {line}: unsupported instruction `{text}`"
  | .assembly line cause => s!"line {line}: {cause.message}"

end JackToolchain
