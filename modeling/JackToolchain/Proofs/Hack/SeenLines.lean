import JackToolchain.Proofs.Hack.Legibility

/-!
# What the assembler sees

A text for the assembler is what it sees on its lines.  The numbers of the lines, and the lines on which it
sees nothing, show in messages only.

## Main Definitions

* `seenIn?` — what the assembler sees on a line.
* `Line.seen` — what it sees of a generated line.
* `Line.IsReadable` — the names in a line are words, and a comment stays on its line.
* `Agree` — two results that differ at most in the line that a message names.

## Main Statements

* `map_snd_sourceLines`, `sourceLines_unlines` — a text and a written text, as the assembler sees them.
* `Line.seen_comment` — a comment on one line is not seen.
* `Line.seen_of_readable`, `sourceLines_text` — a readable line is seen as what it is.
* `assemble_agree` — texts that are seen alike are assembled alike.

## Design Notes

Nothing is assumed about the names in generated lines.  One that holds a line feed is seen as more than one
line, and what does not begin with the sign of a comment is seen whatever it is.
-/

namespace JackToolchain.Hack

open Text

/-! ## Lines -/

/-- What the assembler sees on a line. -/
def seenIn? (line : List Char) : Option SourceLine :=
  match trim (beforeComment line) with
  | [] => none
  | text => some (.ofText text)

/-- **What the assembler sees** are its lines, less their numbers. -/
theorem map_snd_sourceLines (source : String) :
    (sourceLines source).map (·.2) = (lines source.toList).filterMap seenIn? := by
  rw [sourceLines, codeLines, List.map_filterMap, List.map_filterMap]
  -- the numbers of the lines do not matter
  generalize 1 = first
  induction lines source.toList generalizing first with
  | nil => rfl
  | cons line rest ih =>
      rw [List.zipIdx_cons, List.filterMap_cons, List.filterMap_cons, ih, seenIn?]
      dsimp only
      cases trim (beforeComment line) <;> rfl

/-- What the assembler sees of a generated line. -/
def Line.seen (line : Line) : List SourceLine := (endedLines line.text.toList).filterMap seenIn?

/-- Lines written one below the other are seen one after the other. -/
theorem sourceLines_unlines (lines : List Line) :
    (sourceLines (unlines (lines.map Line.text))).map (·.2) = lines.flatMap Line.seen := by
  rw [map_snd_sourceLines, lines_unlines_flatMap, List.flatMap_map, List.filterMap_flatMap]
  rfl

/-- **A comment** is not seen, if it stays on its line. -/
theorem Line.seen_comment {content : String} (oneLine : '\n' ∉ content.toList) :
    (Line.comment content).seen = [] := by
  have single : '\n' ∉ (Line.comment content).text.toList := by
    rw [toList_comment]
    simpa using oneLine
  -- without the carriage return at its end, if there is one, it is still a comment
  obtain ⟨rest, begins⟩ : ∃ rest, dropReturn (Line.comment content).text.toList = '/' :: '/' :: rest := by
    rw [toList_comment, dropReturn]
    split
    · exact ⟨_, rfl⟩
    · exact ⟨_, rfl⟩
  rw [seen, endedLines_of_oneLine single, begins]
  rfl

/-! ## Readable lines -/

/-- A word on a line is seen as it is. -/
theorem seen_word {word : String} (isWord : IsWord word) :
    (endedLines word.toList).filterMap seenIn? = [.ofText word.toList] := by
  have whole : trim (beforeComment word.toList) = word.toList := by
    rw [beforeComment_eq_self_iff.mpr isWord.uncommented, isWord.trim_eq]
  have seen : seenIn? word.toList = some (.ofText word.toList) := by
    unfold seenIn?
    rw [whole]
    split
    · rename_i empty
      exact absurd empty isWord.nonempty
    · rfl
  rw [isWord.endedLines_eq, List.filterMap_cons, seen]
  rfl

/-- **Readable lines.** -/
def Line.IsReadable : Line → Prop
  | .comment content => '\n' ∉ content.toList
  | .label name | .address (.symbol name) => IsWord name
  | .address (.number _) | .compute _ => True

theorem Line.IsLegible.isReadable {line : Line} (legible : line.IsLegible) : line.IsReadable := by
  cases line with
  | comment content => exact legible.1
  | label name => exact isWord_of_isSymbol legible
  | compute instruction => trivial
  | address target =>
      cases target with
      | number value => trivial
      | symbol name => exact isWord_of_isSymbol legible

/-- What a readable line loads is a word. -/
theorem Target.isWord {target : Target} (readable : (Line.address target).IsReadable) :
    IsWord target.text := by
  cases target with
  | number value => exact isWord_numeral value
  | symbol name => exact readable

/-- A readable line that holds code is a word… -/
theorem Line.isWord_text {line : Line} (readable : line.IsReadable) (code : line.source?.isSome) :
    IsWord line.text := by
  cases line with
  | comment content => exact absurd code Bool.false_ne_true
  | label name =>
      have opened : IsSolid ('(' :: name.toList) :=
        IsSolid.nil.append (IsWord.isSolid readable) (by decide) (by decide)
      have closed : IsSolid ('(' :: name.toList ++ [')']) :=
        opened.append .nil (by decide) (by decide)
      refine IsSolid.isWord ?_ (by rw [toList_label]; exact List.cons_ne_nil _ _)
      rw [toList_label]
      exact closed
  | address target =>
      have marked : IsSolid ('@' :: target.text.toList) :=
        IsSolid.nil.append (Target.isWord readable).isSolid (by decide) (by decide)
      refine IsSolid.isWord ?_ (by rw [toList_address]; exact List.cons_ne_nil _ _)
      rw [toList_address]
      exact marked
  | compute instruction => exact instruction.isPlain.isWord instruction.text_ne_nil

/-- …and is **seen as what it is**. -/
theorem Line.seen_of_readable {line : Line} (readable : line.IsReadable) :
    line.seen = line.source?.toList := by
  cases line with
  | comment content => exact seen_comment readable
  | label name =>
      rw [seen, seen_word (isWord_text readable rfl), toList_label]
      show [SourceLine.ofText ('(' :: (name.toList ++ [')']))] = _
      rw [SourceLine.ofText, if_pos List.getLast?_concat, List.dropLast_concat, IsWord.trim_eq readable]
      rfl
  | address target =>
      rw [seen, seen_word (isWord_text readable rfl), toList_address]
      show [SourceLine.ofText ('@' :: target.text.toList)] = _
      rw [SourceLine.ofText, (Target.isWord readable).trim_eq]
      rfl
  | compute instruction =>
      rw [seen, seen_word (isWord_text readable rfl), text, instruction.ofText_text]
      rfl

/-- **The lines that the assembler sees** in readable lines are those lines. -/
theorem sourceLines_text {lines : List Line} (readable : ∀ line ∈ lines, line.IsReadable) :
    (sourceLines (unlines (lines.map Line.text))).map (·.2) = lines.filterMap Line.source? := by
  rw [sourceLines_unlines, List.filterMap_eq_flatMap_toList]
  exact List.flatMap_congr fun line member => Line.seen_of_readable (readable line member)

/-! ## Results -/

/-- **Results that agree**: both are the same, or both are refusals of a line for the same cause. -/
inductive Agree {α : Type} : Except Error α → Except Error α → Prop where
  | ok (value : α) : Agree (.ok value) (.ok value)
  | error (line other : Nat) (cause : Assembly) :
    Agree (.error (.assembly line cause)) (.error (.assembly other cause))

section Results

variable {α β : Type}

/-- Both results are the same, or both are refusals. -/
theorem Agree.same_or_refused {one two : Except Error α} (agree : Agree one two) :
    (∃ value, one = .ok value ∧ two = .ok value) ∨ ∃ line other cause,
      one = .error (.assembly line cause) ∧ two = .error (.assembly other cause) := by
  cases agree with
  | ok value => exact .inl ⟨value, rfl, rfl⟩
  | error line other cause => exact .inr ⟨line, other, cause, rfl, rfl⟩

/-- Agreement is kept by what follows. -/
theorem Agree.bind {one other : Except Error α} {next next' : α → Except Error β}
    (agree : Agree one other) (behind : ∀ value, Agree (next value) (next' value)) :
    Agree (one >>= next) (other >>= next') := by
  cases agree with
  | ok value => exact behind value
  | error line other cause => exact .error line other cause

/-- Agreement of steps is agreement of runs. -/
theorem Agree.foldlM {step : α → Nat × SourceLine → Except Error α}
    (steps : ∀ state line other seen, Agree (step state (line, seen)) (step state (other, seen)))
    {lines others : List (Nat × SourceLine)} (same : lines.map (·.2) = others.map (·.2)) (state : α) :
    Agree (lines.foldlM step state) (others.foldlM step state) := by
  induction lines generalizing others state with
  | nil =>
      obtain rfl := List.map_eq_nil_iff.mp same.symm
      exact .ok state
  | cons numbered rest ih =>
      obtain ⟨line, seen⟩ := numbered
      obtain ⟨⟨other, seenToo⟩, rest', rfl, rfl, sameRest⟩ := List.map_eq_cons_iff.mp same.symm
      rw [List.foldlM_cons, List.foldlM_cons]
      exact (steps state line other seenToo).bind fun between => ih sameRest.symm between

end Results

/-- The first pass does not look at the numbers of lines… -/
theorem Layout.step_agree (layout : Layout) (line other : Nat) (seen : SourceLine) :
    Agree (layout.step (line, seen)) (layout.step (other, seen)) := by
  cases seen with
  | label name =>
      unfold Layout.step
      dsimp only
      split
      · exact .error ..
      · split
        · exact .error ..
        · exact .ok _
  | address | compute =>
      unfold Layout.step
      dsimp only
      split
      · exact .ok _
      · exact .error ..

/-- …and neither does the second. -/
theorem Encoding.step_agree (encoding : Encoding) (line other : Nat) (seen : SourceLine) :
    Agree (encoding.step (line, seen)) (encoding.step (other, seen)) := by
  cases seen with
  | label name => exact .ok _
  | address target =>
      unfold Encoding.step
      dsimp only
      cases encoding.address target with
      | ok after => exact .ok after
      | error cause => exact .error ..
  | compute text =>
      unfold Encoding.step
      dsimp only
      cases Compute.read text with
      | ok instruction => exact .ok _
      | error cause => exact .error ..

/-- **Texts that are seen alike** are assembled alike. -/
theorem assemble_agree {source other : String}
    (same : (sourceLines source).map (·.2) = (sourceLines other).map (·.2)) :
    Agree (assemble source) (assemble other) :=
  (Agree.foldlM Layout.step_agree same {}).bind fun layout =>
    (Agree.foldlM Encoding.step_agree same { symbols := layout.symbols }).bind fun _ => .ok _

end JackToolchain.Hack
