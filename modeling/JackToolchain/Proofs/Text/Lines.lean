import JackToolchain.Text.Lines

/-!
# Written lines

Lines that are written one below the other are read back.

## Main Definitions

* `IsLine` — a text that can stand on a line of its own.
* `endedLines` — the lines of a text that stands in front of a line feed.
* `codeLine?` — the code on a numbered line.

## Main Statements

* `lines_unlines_flatMap` — the lines of texts that are written one below the other are those of each text.
* `lines_unlines` — the lines of written lines are those lines.
* `codeLines_unlines` — the code of written lines is the code on each of them.
* `exists_of_mapM` — what is read item by item comes from the items.
-/

namespace JackToolchain.Text

/-- A text that can stand on a line: it holds no line feed, and does not end with the carriage return
that would belong to the line end. -/
structure IsLine (text : String) : Prop where
  oneLine : '\n' ∉ text.toList
  noReturn : text.toList.getLast? ≠ some '\r'

instance (text : String) : Decidable (IsLine text) :=
  decidable_of_iff ('\n' ∉ text.toList ∧ text.toList.getLast? ≠ some '\r')
    ⟨fun ⟨oneLine, noReturn⟩ => ⟨oneLine, noReturn⟩, fun ⟨oneLine, noReturn⟩ => ⟨oneLine, noReturn⟩⟩

/-- A text without separators is one piece. -/
theorem pieces_of_solid {isSeparator : Char → Bool} {cs : List Char}
    (solid : ∀ c ∈ cs, isSeparator c = false) : pieces isSeparator cs = [cs] := by
  induction cs with
  | nil => rfl
  | cons c rest ih =>
      obtain ⟨here, others⟩ := List.forall_mem_cons.mp solid
      exact pieces_cons_of_not here (ih others)

/-- A separator cuts a text in two. -/
theorem pieces_append {isSeparator : Char → Bool} (front : List Char) {separator : Char}
    (rest : List Char) (ends : isSeparator separator = true) :
    pieces isSeparator (front ++ separator :: rest) =
      pieces isSeparator front ++ pieces isSeparator rest := by
  induction front with
  | nil => exact pieces_cons_separator rest ends
  | cons c front ih =>
      cases separates : isSeparator c with
      | true =>
          rw [List.cons_append, pieces_cons_separator _ separates, pieces_cons_separator _ separates, ih]
          rfl
      | false =>
          obtain ⟨piece, others, cut⟩ := List.exists_cons_of_ne_nil (pieces_ne_nil isSeparator front)
          rw [cut] at ih
          rw [pieces_cons_of_not separates cut]
          exact pieces_cons_of_not separates ih

/-- The first piece ends at the first separator. -/
theorem pieces_append_separator {isSeparator : Char → Bool} {front : List Char} {separator : Char}
    (rest : List Char) (isPiece : ∀ c ∈ front, isSeparator c = false)
    (ends : isSeparator separator = true) :
    pieces isSeparator (front ++ separator :: rest) = front :: pieces isSeparator rest := by
  rw [pieces_append front rest ends, pieces_of_solid isPiece]
  rfl

/-- The lines of a text that is ended by a line feed, as they stand in a longer text. -/
def endedLines (cs : List Char) : List (List Char) := (pieces (· == '\n') cs).map dropReturn

/-- A text without line feeds is one line. -/
theorem endedLines_of_oneLine {cs : List Char} (oneLine : '\n' ∉ cs) : endedLines cs = [dropReturn cs] := by
  have solid : ∀ c ∈ cs, (c == '\n') = false :=
    fun c member => beq_false_of_ne fun same => oneLine (same ▸ member)
  rw [endedLines, pieces_of_solid solid]
  rfl

/-- A line feed ends the lines in front of it. -/
theorem lines_append (front rest : List Char) :
    lines (front ++ '\n' :: rest) = endedLines front ++ lines rest := by
  have cut : pieces (· == '\n') (front ++ '\n' :: rest) =
      pieces (· == '\n') front ++ pieces (· == '\n') rest := pieces_append front rest rfl
  have others := pieces_ne_nil (· == '\n') rest
  have last : (pieces (· == '\n') front ++ pieces (· == '\n') rest).getLast? =
      (pieces (· == '\n') rest).getLast? := by
    rw [List.getLast?_append, List.getLast?_eq_some_getLast others]
    rfl
  unfold lines
  simp only [cut, last]
  rw [List.dropLast_append_of_ne_nil others, List.map_append]
  split
  · rfl
  · rfl
  · exact List.append_assoc _ _ _

/-- **Written texts** have the lines of each of them. -/
theorem lines_unlines_flatMap (texts : List String) :
    lines (unlines texts).toList = texts.flatMap fun text => endedLines text.toList := by
  induction texts with
  | nil => rfl
  | cons text rest ih =>
      rw [unlines_cons, String.toList_append, String.toList_push, List.append_assoc,
        List.singleton_append, lines_append, ih, List.flatMap_cons]

/-- **Written lines** are read back. -/
theorem lines_unlines {texts : List String} (areLines : ∀ text ∈ texts, IsLine text) :
    lines (unlines texts).toList = texts.map String.toList := by
  rw [lines_unlines_flatMap]
  induction texts with
  | nil => rfl
  | cons text rest ih =>
      obtain ⟨here, others⟩ := List.forall_mem_cons.mp areLines
      rw [List.flatMap_cons, ih others, endedLines_of_oneLine here.oneLine, dropReturn,
        if_neg here.noReturn]
      rfl

/-- The code on a numbered line: what its comment and its blanks leave of it. -/
def codeLine? (number : Nat) (text : String) : Option (Nat × List Char) :=
  match trim (beforeComment text.toList) with
  | [] => none
  | code => some (number, code)

/-- The code of written lines is the code on each of them. -/
theorem codeLines_unlines {texts : List String} (areLines : ∀ text ∈ texts, IsLine text) :
    codeLines (unlines texts) =
      (texts.zipIdx 1).filterMap fun numbered => codeLine? numbered.2 numbered.1 := by
  rw [codeLines, lines_unlines areLines, List.zipIdx_map, List.filterMap_map]
  rfl

/-- **Reading item by item**: every result is that of an item. -/
theorem exists_of_mapM {α β ε : Type} {read : α → Except ε β} {items : List α} {results : List β}
    (found : items.mapM read = .ok results) {result : β} (member : result ∈ results) :
    ∃ item ∈ items, read item = .ok result := by
  induction items generalizing results with
  | nil =>
      obtain rfl := Except.ok.inj found
      exact absurd member List.not_mem_nil
  | cons first rest ih =>
      rw [List.mapM_cons] at found
      cases here : read first with
      | error cause =>
          rw [here] at found
          exact absurd found nofun
      | ok value =>
          cases others : rest.mapM read with
          | error cause =>
              rw [here, others] at found
              exact absurd found nofun
          | ok behind =>
              rw [here, others] at found
              obtain rfl := Except.ok.inj found
              rcases List.mem_cons.mp member with rfl | inRest
              · exact ⟨first, List.mem_cons_self, here⟩
              · obtain ⟨item, inItems, same⟩ := ih others inRest
                exact ⟨item, List.mem_cons_of_mem _ inItems, same⟩

end JackToolchain.Text
