import JackToolchain.Text.Numeral

/-!
# Values in a settings file

A settings file is written in JSON.  Settings are made of natural numbers, truth values, texts,
lists, records and `null`; of the numbers JSON can write, only plain natural numbers can be a
setting, and no other is read.

* `Value` — what a settings file holds.
* `Value.ofText?` — the value that a text writes, with nothing but white space around it.

Reading is bounded by a budget: every item and every level of nesting takes at least one character.
-/

namespace JackToolchain.Settings

/-- What a settings file holds. -/
inductive Value where
  | null
  | flag (value : Bool)
  | number (value : Nat)
  | text (content : String)
  | list (items : List Value)
  /-- Named values in the order in which they are written; a name may occur twice. -/
  | record (fields : List (String × Value))

/-- What a reader takes from the front of a text, and the rest. -/
abbrev Reader (α : Type) := List Char → Option (α × List Char)

/-! ## Characters -/

/-- The white space of JSON. -/
def isSpace (c : Char) : Bool := c == ' ' || c == '\t' || c == '\n' || c == '\r'

/-- The text without the white space at its front. -/
def skipSpace (cs : List Char) : List Char := cs.dropWhile isSpace

/-- The value of a hexadecimal digit. -/
def hexDigit? (c : Char) : Option Nat :=
  if c.isDigit then some (c.toNat - '0'.toNat)
  else if 'a' ≤ c && c ≤ 'f' then some (c.toNat - 'a'.toNat + 10)
  else if 'A' ≤ c && c ≤ 'F' then some (c.toNat - 'A'.toNat + 10)
  else none

/-- Four hexadecimal digits. -/
def readUnit : Reader Nat
  | a :: b :: c :: d :: rest => do
    let a ← hexDigit? a
    let b ← hexDigit? b
    let c ← hexDigit? c
    let d ← hexDigit? d
    return (((a * 16 + b) * 16 + c) * 16 + d, rest)
  | _ => none

/-- The first half of a character above the first 65536. -/
def isHighHalf (unit : Nat) : Bool := 0xD800 ≤ unit && unit < 0xDC00

/-- The second half of such a character. -/
def isLowHalf (unit : Nat) : Bool := 0xDC00 ≤ unit && unit < 0xE000

/-- A character given by its code.  A half stands only in front of the other half. -/
def readCode (cs : List Char) : Option (Char × List Char) := do
  let (unit, rest) ← readUnit cs
  if isHighHalf unit then
    match rest with
    | '\\' :: 'u' :: rest =>
      let (low, rest) ← readUnit rest
      if isLowHalf low then
        return (Char.ofNat (0x10000 + (unit - 0xD800) * 0x400 + (low - 0xDC00)), rest)
      else none
    | _ => none
  else if isLowHalf unit then none
  else return (Char.ofNat unit, rest)

/-- What a backslash makes of the character behind it, where that is one character. -/
def escape? : Char → Option Char
  | '"' => some '"'
  | '\\' => some '\\'
  | '/' => some '/'
  | 'b' => some '\x08'
  | 'f' => some '\x0c'
  | 'n' => some '\n'
  | 'r' => some '\r'
  | 't' => some '\t'
  | _ => none

/-- One character inside a text.  Control characters stand only behind a backslash. -/
def readCharacter : Reader Char
  | '\\' :: 'u' :: rest => readCode rest
  | '\\' :: c :: rest => (escape? c).map (·, rest)
  | c :: rest => if c.toNat < 0x20 then none else some (c, rest)
  | [] => none

/-- The characters of a text behind its opening quote, which runs up to the closing quote. -/
def readCharacters : Nat → Reader (List Char)
  | 0, _ => none
  | _ + 1, '"' :: rest => some ([], rest)
  | budget + 1, cs => do
    let (c, rest) ← readCharacter cs
    let (content, rest) ← readCharacters budget rest
    return (c :: content, rest)

/-- A text behind its opening quote. -/
def readText (budget : Nat) : Reader String := fun cs =>
  (readCharacters budget cs).map fun (content, rest) => (String.ofList content, rest)

/-! ## Numbers -/

/-- The largest natural number that is read as one. -/
def largestNumber : Nat := 0xFFFFFFFFFFFFFFFF

/-- A natural number, without leading zeros. -/
def readNumber (cs : List Char) : Option (Nat × List Char) :=
  let digits := cs.takeWhile Char.isDigit
  let rest := cs.dropWhile Char.isDigit
  match digits with
  | [] => none
  | ['0'] => some (0, rest)
  | '0' :: _ => none
  | _ => (Text.boundedValue? largestNumber digits).map (·, rest)

/-! ## Items -/

/-- The items behind the first, each behind a comma, up to the closing character. -/
def readMore {α : Type} (item : Reader α) (closing : Char) : Nat → Reader (List α)
  | 0, _ => none
  | budget + 1, cs =>
    match skipSpace cs with
    | ',' :: rest => do
      let (first, rest) ← item rest
      let (others, rest) ← readMore item closing budget rest
      return (first :: others, rest)
    | c :: rest => if c = closing then some ([], rest) else none
    | [] => none

/-- Items with commas between them, behind the opening character up to the closing one. -/
def readItems {α : Type} (item : Reader α) (closing : Char) (budget : Nat) : Reader (List α) :=
  fun cs =>
    match skipSpace cs with
    | [] => none
    | c :: rest =>
      if c = closing then some ([], rest)
      else do
        let (first, rest) ← item (c :: rest)
        let (others, rest) ← readMore item closing budget rest
        return (first :: others, rest)

/-- A name, a colon and a value. -/
def readField (value : Reader Value) (budget : Nat) : Reader (String × Value) := fun cs =>
  match skipSpace cs with
  | '"' :: rest => do
    let (name, rest) ← readText budget rest
    match skipSpace rest with
    | ':' :: rest =>
      let (value, rest) ← value rest
      return ((name, value), rest)
    | _ => none
  | _ => none

/-- A value, with white space in front. -/
def readValue : Nat → Reader Value
  | 0, _ => none
  | budget + 1, cs =>
    match skipSpace cs with
    | 'n' :: 'u' :: 'l' :: 'l' :: rest => some (.null, rest)
    | 't' :: 'r' :: 'u' :: 'e' :: rest => some (.flag true, rest)
    | 'f' :: 'a' :: 'l' :: 's' :: 'e' :: rest => some (.flag false, rest)
    | '"' :: rest => (readText budget rest).map fun (content, rest) => (.text content, rest)
    | '[' :: rest =>
      (readItems (readValue budget) ']' budget rest).map fun (items, rest) => (.list items, rest)
    | '{' :: rest =>
      (readItems (readField (readValue budget) budget) '}' budget rest).map fun (fields, rest) =>
        (.record fields, rest)
    | cs => (readNumber cs).map fun (value, rest) => (.number value, rest)

/-- The value that a text writes. -/
def Value.ofText? (content : String) : Option Value := do
  let cs := content.toList
  let (value, rest) ← readValue (cs.length + 1) cs
  if (skipSpace rest).isEmpty then return value else none

end JackToolchain.Settings
