import JackToolchain.Hack.Compute
import JackToolchain.Text.Lines
import JackToolchain.Text.Numeral
import Std.Data.TreeMap

/-!
# Assembling

Assembly text becomes words in two passes over its lines.  The first gives every label the number of
the instruction behind it; the second encodes the instructions and gives every other symbol a cell of
its own.

* `SourceLine` — a line by its form.
* `isSymbol` — which names are symbols.
* `Layout` — the state of the first pass.
* `Encoding` — the state of the second pass.
* `assemble` — both passes.
-/

namespace JackToolchain.Hack

open Text

/-! ## Lines -/

/-- A line that holds more than blanks and comments. -/
inductive SourceLine where
  /-- A name in parentheses. -/
  | label (name : List Char)
  /-- A number or name behind an at sign. -/
  | address (target : List Char)
  /-- Anything else. -/
  | compute (text : List Char)
  deriving DecidableEq

/-- The form of a line, given without the blanks around it. -/
def SourceLine.ofText : List Char → SourceLine
  | '(' :: rest =>
    if rest.getLast? = some ')' then .label (trim rest.dropLast) else .compute ('(' :: rest)
  | '@' :: rest => .address (trim rest)
  | text => .compute text

/-- The lines of a text, with their numbers. -/
def sourceLines (source : String) : List (Nat × SourceLine) :=
  (codeLines source).map fun (number, text) => (number, .ofText text)

/-! ## Symbols -/

/-- The characters of symbols. -/
def isSymbolCharacter (c : Char) : Bool :=
  c.isAlphanum || c == '_' || c == '.' || c == '$' || c == ':'

/-- A symbol is a non-empty name of such characters that does not begin with a digit. -/
def isSymbol : List Char → Bool
  | [] => false
  | c :: rest => !c.isDigit && isSymbolCharacter c && rest.all isSymbolCharacter

/-- Symbols and their values. -/
abbrev Symbols := Std.TreeMap String Nat

/-- The first cell of the screen memory; variables lie below it. -/
def screen : Nat := 16384

/-- The cell of the keyboard. -/
def keyboard : Nat := 24576

/-- The symbols that every program knows. -/
def predefinedList : List (String × Nat) :=
  [("SP", 0), ("LCL", 1), ("ARG", 2), ("THIS", 3), ("THAT", 4), ("SCREEN", screen),
    ("KBD", keyboard), ("R0", 0), ("R1", 1), ("R2", 2), ("R3", 3), ("R4", 4), ("R5", 5), ("R6", 6),
    ("R7", 7), ("R8", 8), ("R9", 9), ("R10", 10), ("R11", 11), ("R12", 12), ("R13", 13),
    ("R14", 14), ("R15", 15)]

/-- The predefined symbols as a map. -/
def predefined : Symbols := .ofList predefinedList

/-- The cell of the first variable, behind the registers. -/
def firstVariable : Nat := 16

/-! ## The first pass -/

/-- How many instructions a program may have. -/
def largestProgram : Nat := 65535

/-- Labels found so far and the number of the next instruction. -/
structure Layout where
  symbols : Symbols := predefined
  next : Nat := 0

/-- One line of the first pass. -/
def Layout.step (layout : Layout) : Nat × SourceLine → Except Error Layout
  | (line, .label name) =>
    let label := String.ofList name
    if !isSymbol name then .error (.assembly line (.invalidLabel label))
    else if layout.symbols.contains label then
      .error (.assembly line (.labelDeclaredTwice label))
    else .ok { layout with symbols := layout.symbols.insert label layout.next }
  | (line, _) =>
    if layout.next < largestProgram then .ok { layout with next := layout.next + 1 }
    else .error (.assembly line .programTooLong)

/-! ## The second pass -/

/-- Symbols known so far, the next free cell, and the words so far. -/
structure Encoding where
  symbols : Symbols
  nextVariable : Nat := firstVariable
  words : Array Word := #[]

namespace Encoding

/-- One word more. -/
def push (encoding : Encoding) (word : Word) : Encoding :=
  { encoding with words := encoding.words.push word }

/-- An address instruction.  What begins with a digit is a number; any other name is a known symbol or
becomes a variable. -/
def address (encoding : Encoding) (target : List Char) : Except Assembly Encoding :=
  let name := String.ofList target
  if target.head?.any Char.isDigit then
    match natural? largestConstant target with
    | some value => .ok (encoding.push (BitVec.ofNat 16 value))
    | none => .error (.constantOutOfRange name)
  else
    match encoding.symbols[name]? with
    | some value => .ok (encoding.push (BitVec.ofNat 16 value))
    | none =>
      if !isSymbol target then .error (.invalidSymbol name)
      else if encoding.nextVariable < screen then
        .ok { encoding.push (BitVec.ofNat 16 encoding.nextVariable) with
          symbols := encoding.symbols.insert name encoding.nextVariable
          nextVariable := encoding.nextVariable + 1 }
      else .error .variablesExhausted

/-- One line of the second pass. -/
def step (encoding : Encoding) : Nat × SourceLine → Except Error Encoding
  | (_, .label _) => .ok encoding
  | (line, .address target) => (encoding.address target).mapError (.assembly line)
  | (line, .compute text) =>
    match Compute.read text with
    | .ok instruction => .ok (encoding.push instruction.encode)
    | .error cause => .error (.assembly line cause)

end Encoding

/-! ## Both passes -/

/-- A program in words, and the values of all symbols. -/
structure Assembled where
  words : List Word
  symbols : Symbols

/-- Assembles a text.  A fault of the first pass anywhere hides those of the second. -/
def assemble (source : String) : Except Error Assembled := do
  let lines := sourceLines source
  let layout ← lines.foldlM Layout.step {}
  let encoding ← lines.foldlM Encoding.step { symbols := layout.symbols }
  return ⟨encoding.words.toList, encoding.symbols⟩

/-- A word as sixteen binary digits, the highest first. -/
def binaryText (word : Word) : String :=
  String.ofList ((List.range 16).map fun i => if word.getMsbD i then '1' else '0')

/-- The words one below the other. -/
def Assembled.text (assembled : Assembled) : String :=
  unlines (assembled.words.map binaryText)

end JackToolchain.Hack
