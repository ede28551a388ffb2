/-!
# White space

Which characters count as blank, and the two operations that look at blanks only: `trim` removes
them from both ends of a text, and `pieces` cuts a text at every character of a class.

* `isBlank` — the Unicode property `White_Space`.
* `trim` — the text without the blanks around it.
* `pieces` — the stretches between the separators; `n` separators leave `n + 1` pieces.
* `words` — the non-empty pieces between blanks.
-/

namespace JackToolchain.Text

/-- The code points of the characters with the Unicode property `White_Space`, in increasing
order. -/
def blankCodePoints : List Nat :=
  [0x9, 0xA, 0xB, 0xC, 0xD, 0x20, 0x85, 0xA0, 0x1680, 0x2000, 0x2001, 0x2002, 0x2003, 0x2004,
    0x2005, 0x2006, 0x2007, 0x2008, 0x2009, 0x200A, 0x2028, 0x2029, 0x202F, 0x205F, 0x3000]

/-- A character is blank when it has the Unicode property `White_Space`. -/
def isBlank (c : Char) : Bool := blankCodePoints.contains c.toNat

/-- The text without the blanks at its two ends. -/
def trim (cs : List Char) : List Char :=
  ((cs.dropWhile isBlank).reverse.dropWhile isBlank).reverse

/-- **Cutting at separators.**  Every character of the class `isSeparator` ends a piece and belongs
to none; the pieces keep their order and may be empty.

The fold runs from the right, so a text of any length is cut without deep recursion. -/
def pieces (isSeparator : Char → Bool) (cs : List Char) : List (List Char) :=
  cs.foldr
    (fun c rest =>
      if isSeparator c then [] :: rest
      else match rest with
        | [] => [[c]]
        | piece :: others => (c :: piece) :: others)
    [[]]

@[simp] theorem pieces_nil (isSeparator : Char → Bool) : pieces isSeparator [] = [[]] := rfl

theorem pieces_ne_nil (isSeparator : Char → Bool) (cs : List Char) :
    pieces isSeparator cs ≠ [] := by
  cases cs with
  | nil => simp
  | cons c cs =>
    unfold pieces
    simp only [List.foldr_cons]
    split
    · simp
    · split <;> simp

/-- A separator in front opens an empty piece. -/
theorem pieces_cons_separator {isSeparator : Char → Bool} {c : Char} (cs : List Char)
    (h : isSeparator c = true) : pieces isSeparator (c :: cs) = [] :: pieces isSeparator cs := by
  simp [pieces, h]

/-- Any other character joins the piece behind it. -/
theorem pieces_cons_of_not {isSeparator : Char → Bool} {c : Char} {cs piece : List Char}
    {others : List (List Char)} (h : isSeparator c = false)
    (behind : pieces isSeparator cs = piece :: others) :
    pieces isSeparator (c :: cs) = (c :: piece) :: others := by
  unfold pieces at behind ⊢
  simp [h, behind]

/-- The words of a text: its non-empty pieces between blanks. -/
def words (cs : List Char) : List (List Char) :=
  (pieces isBlank cs).filter (!·.isEmpty)

end JackToolchain.Text
