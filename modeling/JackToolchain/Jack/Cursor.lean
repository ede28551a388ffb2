import JackToolchain.Token

/-!
# Reading positions

* `Cursor` — the tokens not yet read.
* `Cursor.peek?`, `Cursor.peekAt?` — tokens ahead; looking consumes nothing.
* `Cursor.advance` — one token further, if there is one.
* `Cursor.line` — the line to report: that of the next token, or of the last token of the text when
  all are read, or zero for a text without tokens.
-/

namespace JackToolchain.Jack

/-- The tokens not yet read, and the line of the last token of the whole text. -/
structure Cursor where
  rest : List Located
  lastLine : Nat

namespace Cursor

/-- The position in front of all tokens. -/
def ofTokens (tokens : List Located) : Cursor where
  rest := tokens
  lastLine := (tokens.getLast?.map (·.line)).getD 0

/-- The token `distance` tokens behind the next one. -/
def peekAt? (cursor : Cursor) (distance : Nat) : Option Token :=
  cursor.rest[distance]?.map (·.token)

/-- The next token. -/
def peek? (cursor : Cursor) : Option Token := cursor.rest.head?.map (·.token)

/-- The position behind the next token; at the end, the same position. -/
def advance (cursor : Cursor) : Cursor := { cursor with rest := cursor.rest.tail }

/-- The line that an error at this position reports. -/
def line (cursor : Cursor) : Nat := (cursor.rest.head?.map (·.line)).getD cursor.lastLine

/-- Whether all tokens are read. -/
def atEnd (cursor : Cursor) : Bool := cursor.rest.isEmpty

@[simp] theorem peekAt?_zero (cursor : Cursor) : cursor.peekAt? 0 = cursor.peek? := by
  simp [peekAt?, peek?, List.head?_eq_getElem?]

/-- At the end there is no next token, and only there. -/
theorem atEnd_iff_peek? (cursor : Cursor) : cursor.atEnd ↔ cursor.peek? = none := by
  simp [atEnd, peek?]

end Cursor

end JackToolchain.Jack
