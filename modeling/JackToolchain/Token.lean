/-!
# Tokens

The vocabulary of the Jack language.

* `Keyword` — the 21 reserved words, each with its one spelling.
* `symbols` — the 19 characters that are tokens by themselves.
* `Token` — a reserved word, a symbol, an integer or string constant, or an identifier.
* `Located` — a token and the line it begins on.
* `largestConstant` — the bound on an integer constant, the largest number that one address
  instruction of the machine can hold.
-/

namespace JackToolchain

/-- The largest integer constant: address instructions carry 15 bits. -/
def largestConstant : Nat := 32767

/-- The reserved words. -/
inductive Keyword where
  | class_ | constructor_ | function | method | field | static_ | var
  | int | char | boolean | void
  | true_ | false_ | null | this
  | let_ | do_ | if_ | else_ | while_ | return_
  deriving DecidableEq

namespace Keyword

/-- Every reserved word once. -/
def all : List Keyword :=
  [class_, constructor_, function, method, field, static_, var, int, char, boolean, void,
    true_, false_, null, this, let_, do_, if_, else_, while_, return_]

/-- The spelling of a reserved word. -/
def text : Keyword → String
  | class_ => "class"
  | constructor_ => "constructor"
  | function => "function"
  | method => "method"
  | field => "field"
  | static_ => "static"
  | var => "var"
  | int => "int"
  | char => "char"
  | boolean => "boolean"
  | void => "void"
  | true_ => "true"
  | false_ => "false"
  | null => "null"
  | this => "this"
  | let_ => "let"
  | do_ => "do"
  | if_ => "if"
  | else_ => "else"
  | while_ => "while"
  | return_ => "return"

/-- The reserved word with a given spelling. -/
def ofText? (word : String) : Option Keyword :=
  all.find? (·.text == word)

/-- Reading a spelling back gives the word. -/
theorem ofText?_text (k : Keyword) : ofText? k.text = some k := by cases k <;> decide

/-- A word is read only from its own spelling. -/
theorem text_of_ofText? {word : String} {k : Keyword} (h : ofText? word = some k) :
    k.text = word := by
  simpa using List.find?_some h

end Keyword

/-- The characters that are tokens by themselves. -/
def symbols : List Char :=
  ['{', '}', '(', ')', '[', ']', '.', ',', ';', '+', '-', '*', '/', '&', '|', '<', '>', '=', '~']

/-- A token without its place in the text. -/
inductive Token where
  /-- A reserved word. -/
  | keyword (k : Keyword)
  /-- One of `symbols`. -/
  | symbol (c : Char)
  /-- An integer constant, by its value. -/
  | integer (value : Nat)
  /-- A string constant, without its quotes. -/
  | text (content : String)
  /-- A name. -/
  | identifier (name : String)
  deriving DecidableEq

/-- A token as error messages name it: its class, then its spelling. -/
def Token.describe : Token → String
  | .keyword k => s!"keyword `{k.text}`"
  | .symbol c => s!"symbol `{c}`"
  | .integer value => s!"integer `{value}`"
  | .text content => s!"string \"{content}\""
  | .identifier name => s!"identifier `{name}`"

/-- A token and the number of the line it begins on, counted from one. -/
structure Located where
  token : Token
  line : Nat
  deriving DecidableEq

end JackToolchain
