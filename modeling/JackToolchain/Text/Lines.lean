import JackToolchain.Text.Blank

/-!
# Lines

How the line-oriented texts (stack-machine code and assembly) fall into lines, and where a comment
begins on a line.

* `lines` — a line ends at a line feed; a carriage return directly before that line feed belongs to
  the line end; nothing follows the last line end.
* `beforeComment` — the part of a line in front of the first `//`.
* `codeLines` — the numbered lines that hold more than blanks and comments.
* `unlines` — every line ended by a line feed.
-/

namespace JackToolchain.Text

/-- A line that was ended by a line feed, without the carriage return that may stand before it. -/
def dropReturn (line : List Char) : List Char :=
  if line.getLast? = some '\r' then line.dropLast else line

/-- **The lines of a text.**  What stands behind the last line feed is a line only if it is not
empty, and it keeps its carriage return. -/
def lines (cs : List Char) : List (List Char) :=
  let all := pieces (· == '\n') cs
  let ended := all.dropLast.map dropReturn
  match all.getLast? with
  | some [] | none => ended
  | some unfinished => ended ++ [unfinished]

/-- The part of a line in front of its first `//`. -/
def beforeComment : List Char → List Char
  | [] => []
  | '/' :: '/' :: _ => []
  | c :: rest => c :: beforeComment rest

/-- The lines that hold anything but blanks and comments: what remains of each, with its number
counted from one over all lines. -/
def codeLines (source : String) : List (Nat × List Char) :=
  ((lines source.toList).zipIdx 1).filterMap fun (line, number) =>
    match trim (beforeComment line) with
    | [] => none
    | text => some (number, text)

/-- The lines written one below the other, each ended by a line feed. -/
def unlines (texts : List String) : String :=
  String.join (texts.map (·.push '\n'))

@[simp] theorem lines_nil : lines [] = [] := rfl

@[simp] theorem unlines_nil : unlines [] = "" := rfl

@[simp] theorem unlines_cons (line : String) (texts : List String) :
    unlines (line :: texts) = line.push '\n' ++ unlines texts := by
  simp [unlines, String.join_cons]

end JackToolchain.Text
