import JackToolchain.Error
import JackToolchain.Text.Blank
import JackToolchain.Text.Numeral

/-!
# Reading tokens

A text is read as a sequence of tokens with blanks and comments between them.

* `Lexer.skip` — what stands behind the blanks and comments at the front of a text.
* `Lexer.next` — the token at the front of a text, as long as its class allows.
* `Lexer.items` — every token and every fault of a text, in order.  Reading goes on behind a fault;
  only an unclosed block comment takes the whole rest of the text with it.
* `tokenize` — the tokens of a text without faults, or its first fault.

Both `skip` and `next` leave a rest that is no longer than what they were given, and `next` a
shorter one; that is why reading comes to an end.
-/

namespace JackToolchain.Lexer

open Text

/-- The unread part of a text and the number of the line it begins on. -/
structure Position where
  rest : List Char
  line : Nat
  deriving DecidableEq

/-- The number of the line behind a character. -/
def lineAfter (line : Nat) (c : Char) : Nat := if c = '\n' then line + 1 else line

/-! ## Blanks and comments -/

/-- What is being skipped. -/
inductive Skipping where
  /-- Blanks, up to a token or a comment. -/
  | blanks
  /-- A comment that ends with its line. -/
  | lineComment
  /-- A comment that ends at the next `*/`, begun on a given line. -/
  | blockComment (start : Nat)
  deriving DecidableEq

/-- **Blanks and comments.**  The position of the first character that belongs to neither, or the
line on which a block comment begins that is never closed.

The two characters that open a block comment are not looked at again for closing it. -/
def skip : Skipping → Nat → List Char → Except Nat Position
  | .blanks, line, '/' :: '/' :: rest => skip .lineComment line rest
  | .blanks, line, '/' :: '*' :: rest => skip (.blockComment line) line rest
  | .blanks, line, c :: rest =>
    if isBlank c then skip .blanks (lineAfter line c) rest else .ok ⟨c :: rest, line⟩
  | .blanks, line, [] => .ok ⟨[], line⟩
  | .lineComment, line, c :: rest =>
    skip (if c = '\n' then .blanks else .lineComment) (lineAfter line c) rest
  | .lineComment, line, [] => .ok ⟨[], line⟩
  | .blockComment _, line, '*' :: '/' :: rest => skip .blanks line rest
  | .blockComment start, line, c :: rest => skip (.blockComment start) (lineAfter line c) rest
  | .blockComment start, _, [] => .error start

/-- Skipping never lengthens the text. -/
theorem length_skip_le {mode : Skipping} {line : Nat} {cs : List Char} {position : Position}
    (h : skip mode line cs = .ok position) : position.rest.length ≤ cs.length := by
  fun_induction skip mode line cs with
  | case1 _ _ ih => have := ih h; simp only [List.length_cons]; omega
  | case2 _ _ ih => have := ih h; simp only [List.length_cons]; omega
  | case3 _ _ _ _ _ _ ih => have := ih h; simp only [List.length_cons]; omega
  | case4 => simp only [Except.ok.injEq] at h; subst h; simp
  | case5 => simp only [Except.ok.injEq] at h; subst h; simp
  | case6 _ _ _ ih => have := ih h; simp only [List.length_cons]; omega
  | case7 => simp only [Except.ok.injEq] at h; subst h; simp
  | case8 _ _ _ ih => have := ih h; simp only [List.length_cons]; omega
  | case9 _ _ _ _ _ ih => have := ih h; simp only [List.length_cons]; omega
  | case10 => simp at h

/-! ## One token -/

/-- The first character of a word. -/
def isWordStart (c : Char) : Bool := c.isAlpha || c == '_'

/-- Any other character of a word. -/
def isWordPart (c : Char) : Bool := c.isAlphanum || c == '_'

/-- A character inside a string constant: it neither closes the string nor ends the line. -/
def isStringPart (c : Char) : Bool := c != '"' && c != '\n'

/-- A word is a keyword if it is spelled like one and a name otherwise. -/
def classifyWord (word : String) : Token :=
  match Keyword.ofText? word with
  | some k => .keyword k
  | none => .identifier word

/-- Digits are an integer constant up to the bound. -/
def readInteger (digits : List Char) : Except Lexical Token :=
  match boundedValue? largestConstant digits with
  | some value => .ok (.integer value)
  | none => .error (.constantTooLarge (String.ofList digits))

/-- The string constant behind an opening quote.  It ends at the next quote; a line feed or the end
of the text before that is a fault, and the line feed is read with it. -/
def readString (line : Nat) (cs : List Char) : Except Lexical Token × Position :=
  let content := cs.takeWhile isStringPart
  match cs.dropWhile isStringPart with
  | [] => (.error .unterminatedString, ⟨[], line⟩)
  | '\n' :: rest => (.error .unterminatedString, ⟨rest, line + 1⟩)
  | _ :: rest => (.ok (.text (String.ofList content)), ⟨rest, line⟩)

/-- **One token.**  The first character decides its class, and words and integers run as far as the
characters of their class do. -/
def next (line : Nat) (c : Char) (rest : List Char) : Except Lexical Token × Position :=
  if c = '"' then readString line rest
  else if symbols.contains c then (.ok (.symbol c), ⟨rest, line⟩)
  else if c.isDigit then
    (readInteger (c :: rest.takeWhile Char.isDigit), ⟨rest.dropWhile Char.isDigit, line⟩)
  else if isWordStart c then
    (.ok (classifyWord (String.ofList (c :: rest.takeWhile isWordPart))),
      ⟨rest.dropWhile isWordPart, line⟩)
  else (.error (.unexpectedCharacter c), ⟨rest, line⟩)

theorem length_dropWhile_le {α : Type} (p : α → Bool) (xs : List α) :
    (xs.dropWhile p).length ≤ xs.length :=
  (List.dropWhile_sublist p).length_le

theorem length_readString_le (line : Nat) (cs : List Char) :
    (readString line cs).2.rest.length ≤ cs.length := by
  have bound := length_dropWhile_le isStringPart cs
  unfold readString
  simp only
  split
  · simp
  · rename_i behind; rw [behind] at bound; simp only [List.length_cons] at bound ⊢; omega
  · rename_i behind; rw [behind] at bound; simp only [List.length_cons] at bound ⊢; omega

/-- What is left behind a token is no longer than what stood behind its first character. -/
theorem length_next_le (line : Nat) (c : Char) (rest : List Char) :
    (next line c rest).2.rest.length ≤ rest.length := by
  unfold next
  split
  · exact length_readString_le line rest
  · split
    · simp
    · split
      · exact length_dropWhile_le _ _
      · split
        · exact length_dropWhile_le _ _
        · simp

/-! ## The whole text -/

/-- A token, or the fault in its place, with the line on which it begins. -/
def locate (line : Nat) : Except Lexical Token → Except Error Located
  | .ok token => .ok ⟨token, line⟩
  | .error cause => .error (.lexical line cause)

/-- **Tokens and faults of a text,** in order.  A fault stands on the line on which the token begins,
an unclosed comment on the line on which the comment does. -/
def items (position : Position) : List (Except Error Located) :=
  match _skipped : skip .blanks position.line position.rest with
  | .error start => [.error (.lexical start .unterminatedComment)]
  | .ok ⟨[], _⟩ => []
  | .ok ⟨c :: rest, line⟩ =>
    let reading := next line c rest
    locate line reading.1 :: items reading.2
termination_by position.rest.length
decreasing_by
  have read := length_next_le line c rest
  have left := length_skip_le _skipped
  simp only [List.length_cons] at left
  omega

end JackToolchain.Lexer

namespace JackToolchain

open Lexer in
/-- The tokens of a text, or its first fault. -/
def tokenize (source : String) : Except Error (List Located) :=
  (items ⟨source.toList, 1⟩).mapM id

end JackToolchain
