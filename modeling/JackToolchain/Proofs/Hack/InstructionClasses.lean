import JackToolchain.Proofs.Hack.Assembly
import JackToolchain.Proofs.Text.Lines

/-!
# The two instruction classes

The leading bit of a word tells the machine whether the word is an address or a computation.  When the
words of an assembled text are taken for what their lines say.

## Main Definitions

* `ComputeMarked` — a compute line has a word whose three leading bits are set.
* `AddressClear` — an address line has a word whose leading bit is clear.
* `LabelInReach` — the label that an address line names, if it names one, has a position that a
  constant can hold.
* `labelBehind` — a text that declares a label behind a number of instructions and then names it.

## Main Statements

* `classes_apart_iff_labels_in_reach` — compute lines are always marked; address lines are clear
  exactly when the labels that they name are in reach.
* `classes_apart_of_size` — a program of at most 32767 words keeps the classes apart.

## Design Notes

Constants and variables are checked against the reach of an address instruction, labels are not: the
first pass counts up to 65535 instructions.  `far_label_breaks_classes` is a program in which the two
limits differ.
-/

namespace JackToolchain.Hack

open Text

/-! ## Classes -/

/-- **Compute lines** have words whose three leading bits are set. -/
def ComputeMarked : SourceLine → Word → Prop
  | .compute _, word => word.extractLsb' 13 3 = 0b111#3
  | .label _, _ | .address _, _ => True

/-- **Address lines** have words that a constant can hold, so that their leading bit is clear. -/
def AddressClear : SourceLine → Word → Prop
  | .address _, word => word.toNat ≤ largestConstant
  | .label _, _ | .compute _, _ => True

/-- The label that an address line names, if it names one, is declared behind no more words than a
constant can count. -/
def LabelInReach (lines : List (Nat × SourceLine)) : SourceLine → Prop
  | .address target =>
    ∀ position ∈ labelPosition? (String.ofList target) 0 lines, position ≤ largestConstant
  | .label _ | .compute _ => True

section Lines

variable {lines : List (Nat × SourceLine)} {line : SourceLine} {word : Word}

/-- The word of a compute line is marked. -/
theorem Encodes.computeMarked (encodes : Encodes lines line word) : ComputeMarked line word := by
  cases line with
  | label => exact trivial
  | address => exact trivial
  | compute => exact encodes

/-- The word of an address line is clear exactly when its label is in reach. -/
theorem Encodes.addressClear_iff (encodes : Encodes lines line word)
    (counted : ∀ name position, labelPosition? name 0 lines = some position →
      position ≤ largestProgram) :
    AddressClear line word ↔ LabelInReach lines line := by
  cases line with
  | label | compute => exact Iff.rfl
  | address target =>
      rw [Encodes] at encodes
      rw [AddressClear, LabelInReach]
      cases found : labelPosition? (String.ofList target) 0 lines with
      | none =>
          rw [found] at encodes
          constructor
          · intro _ position named
            exact absurd named.symm (Option.some_ne_none position)
          · intro _
            exact encodes
      | some position =>
          rw [found] at encodes
          have bounded := counted _ _ found
          have value : word.toNat = position := by
            rw [encodes, BitVec.toNat_ofNat]
            unfold largestProgram at bounded
            omega
          rw [value]
          constructor
          · intro small _ named
            exact Option.some.inj named ▸ small
          · intro small
            exact small position rfl

/-- What holds of each pair exactly when it holds of its first part holds of paired lists exactly when
it holds of the members of the first. -/
theorem forall₂_iff_forall_mem {α β : Type} {related wanted : α → β → Prop} {condition : α → Prop}
    {xs : List α} {ys : List β} (pairs : List.Forall₂ related xs ys)
    (each : ∀ x y, related x y → (wanted x y ↔ condition x)) :
    List.Forall₂ wanted xs ys ↔ ∀ x ∈ xs, condition x := by
  induction pairs with
  | nil => simp
  | cons first _ ih => rw [List.forall₂_cons, List.forall_mem_cons, each _ _ first, ih]

end Lines

section Assemble

variable {source : String} {assembled : Assembled}

/-- The words of compute lines are marked. -/
theorem words_marked (ok : assemble source = .ok assembled) :
    List.Forall₂ ComputeMarked (instructionLines source) assembled.words :=
  (assemble_words ok).imp fun _ _ encodes => encodes.computeMarked

/-- The words of address lines are clear exactly when the labels that they name are in reach. -/
theorem words_clear_iff (ok : assemble source = .ok assembled) :
    List.Forall₂ AddressClear (instructionLines source) assembled.words ↔
      ∀ line ∈ instructionLines source, LabelInReach (sourceLines source) line :=
  forall₂_iff_forall_mem (assemble_words ok) fun _ _ encodes =>
    encodes.addressClear_iff fun _ _ found => labelPosition_le ok found

/-- **A program of at most 32767 words** keeps the classes apart, wherever its labels lie. -/
theorem classes_apart_of_size (ok : assemble source = .ok assembled)
    (small : assembled.words.length ≤ largestConstant) :
    List.Forall₂ ComputeMarked (instructionLines source) assembled.words ∧
      List.Forall₂ AddressClear (instructionLines source) assembled.words := by
  have counted : (instructionLines source).length = assembled.words.length :=
    (assemble_words ok).length_eq
  refine ⟨words_marked ok, (words_clear_iff ok).mpr ?_⟩
  intro line _
  cases line with
  | label | compute => exact trivial
  | address target =>
      intro position found
      have inside := labelPosition_le_length found
      rw [Nat.zero_add] at inside
      exact Nat.le_trans inside (counted ▸ small)

/-- **The classes of assembled words.**  The words of compute lines are always marked.  The words of
address lines are clear exactly when every label that is named by one is in reach. -/
theorem classes_apart_iff_labels_in_reach (ok : assemble source = .ok assembled) :
    List.Forall₂ ComputeMarked (instructionLines source) assembled.words ∧
      (List.Forall₂ AddressClear (instructionLines source) assembled.words ↔
        ∀ line ∈ instructionLines source, LabelInReach (sourceLines source) line) :=
  ⟨words_marked ok, words_clear_iff ok⟩

end Assemble

/-! ## Labels out of reach -/

/-- A label declared behind instructions that do nothing, and named in the line behind it. -/
def labelBehind (count : Nat) : String :=
  unlines (List.replicate count "0" ++ ["(END)", "@END"])

/-- The instruction that does nothing. -/
def idle : Compute := ⟨⟨false, false, false⟩, .zero, .never⟩

/-- Numbered lines that do nothing. -/
def idleLines (first count : Nat) : List (Nat × SourceLine) :=
  (List.range' first count).map (·, .compute ['0'])

/-- Lines that hold a zero each do nothing. -/
theorem codeLine?_zeros (first count : Nat) :
    ((List.replicate count "0").zipIdx first).filterMap
        (fun numbered => codeLine? numbered.2 numbered.1) =
      (List.range' first count).map (·, ['0']) := by
  induction count generalizing first with
  | zero => rfl
  | succ count ih =>
      have here : codeLine? first "0" = some (first, ['0']) := rfl
      rw [List.replicate_succ, List.zipIdx_cons, List.filterMap_cons, here, ih (first + 1)]
      rfl

/-- The lines of the text. -/
theorem sourceLines_labelBehind (count : Nat) :
    sourceLines (labelBehind count) = idleLines 1 count ++
      [(count + 1, SourceLine.label ['E', 'N', 'D']), (count + 2, .address ['E', 'N', 'D'])] := by
  have areLines : ∀ text ∈ List.replicate count "0" ++ ["(END)", "@END"], IsLine text := by
    intro text member
    rcases List.mem_append.mp member with repeated | last
    · rw [(List.mem_replicate.mp repeated).2]
      decide
    · have each : ∀ text ∈ ["(END)", "@END"], IsLine text := by decide
      exact each text last
  have declaration (number : Nat) :
      codeLine? number "(END)" = some (number, ['(', 'E', 'N', 'D', ')']) := rfl
  have use (number : Nat) : codeLine? number "@END" = some (number, ['@', 'E', 'N', 'D']) := rfl
  rw [sourceLines, labelBehind, codeLines_unlines areLines, List.zipIdx_append,
    List.filterMap_append, codeLine?_zeros, List.map_append, List.map_map, List.length_replicate,
    Nat.add_comm 1 count, List.zipIdx_cons, List.zipIdx_cons, List.filterMap_cons, declaration,
    List.filterMap_cons, use]
  rfl

section Idle

variable (first count : Nat)

/-- The first pass counts instructions that do nothing. -/
theorem layout_idleLines {layout : Layout} (room : layout.next + count ≤ largestProgram) :
    (idleLines first count).foldlM Layout.step layout =
      .ok { layout with next := layout.next + count } := by
  induction count generalizing first layout with
  | zero => rfl
  | succ count ih =>
      have here : layout.next < largestProgram := by omega
      have onwards : layout.next + 1 + count ≤ largestProgram := by omega
      have stepped : layout.step (first, .compute ['0']) =
          .ok { layout with next := layout.next + 1 } := if_pos here
      rw [idleLines, List.range'_succ, List.map_cons, foldlM_cons_of_ok stepped]
      refine (ih (first + 1) onwards).trans ?_
      rw [Nat.add_assoc, Nat.add_comm 1 count]

/-- The second pass encodes them. -/
theorem encoding_idleLines (encoding : Encoding) :
    (idleLines first count).foldlM Encoding.step encoding =
      .ok { encoding with words := encoding.words ++ Array.replicate count idle.encode } := by
  induction count generalizing first encoding with
  | zero =>
      rw [Array.replicate_zero, Array.append_empty]
      rfl
  | succ count ih =>
      have stepped : encoding.step (first, .compute ['0']) = .ok (encoding.push idle.encode) := rfl
      rw [idleLines, List.range'_succ, List.map_cons, foldlM_cons_of_ok stepped]
      refine (ih (first + 1) (encoding.push idle.encode)).trans ?_
      rw [Array.replicate_succ', ← Array.append_assoc]
      rfl

end Idle

/-- The text is accepted, and the word of its last line is the position of the label. -/
theorem assemble_labelBehind {count : Nat} (room : count < largestProgram) :
    assemble (labelBehind count) = .ok ⟨List.replicate count idle.encode ++ [BitVec.ofNat 16 count],
      predefined.insert "END" count⟩ := by
  have fresh : predefined.contains "END" = false := by
    rw [predefined, Std.TreeMap.contains_ofList]
    decide
  have bound : (predefined.insert "END" count)["END"]? = some count := by
    rw [getElem?_insert_symbol, if_pos rfl]
  -- the first pass counts, binds the label and counts once more
  have inside : ({} : Layout).next + count ≤ largestProgram := by
    rw [Nat.zero_add]
    exact Nat.le_of_lt room
  have declared : Layout.step ⟨predefined, count⟩ (count + 1, .label ['E', 'N', 'D']) =
      .ok ⟨predefined.insert "END" count, count⟩ :=
    Layout.step_label_of_fresh (by decide) fresh
  have passed : Layout.step ⟨predefined.insert "END" count, count⟩
      (count + 2, .address ['E', 'N', 'D']) = .ok ⟨predefined.insert "END" count, count + 1⟩ :=
    if_pos room
  have first : (sourceLines (labelBehind count)).foldlM Layout.step {} =
      .ok ⟨predefined.insert "END" count, count + 1⟩ := by
    rw [sourceLines_labelBehind, foldlM_append_of_ok (layout_idleLines 1 count inside),
      Nat.zero_add, foldlM_cons_of_ok declared, foldlM_cons_of_ok passed]
    rfl
  -- the second pass finds the label among the symbols
  have second : (sourceLines (labelBehind count)).foldlM Encoding.step
      { symbols := predefined.insert "END" count } =
        .ok { symbols := predefined.insert "END" count,
              words := (Array.replicate count idle.encode).push (BitVec.ofNat 16 count) } := by
    rw [sourceLines_labelBehind, foldlM_append_of_ok (encoding_idleLines 1 count _),
      foldlM_cons_of_ok rfl, foldlM_cons_of_ok (step_address_of_known (by decide) bound),
      Array.empty_append]
    rfl
  rw [assemble_of_ok first second, Array.toList_push, Array.toList_replicate]

/-- The lines of the text that take a word. -/
theorem instructionLines_labelBehind (count : Nat) :
    instructionLines (labelBehind count) =
      List.replicate count (SourceLine.compute ['0']) ++ [SourceLine.address ['E', 'N', 'D']] := by
  have idles : instructionsOf (idleLines 1 count) = List.replicate count (.compute ['0']) := by
    have contents : (idleLines 1 count).map (·.2) = List.replicate count (.compute ['0']) := by
      rw [idleLines, List.map_map]
      exact List.map_const'.trans (by rw [List.length_range'])
    rw [instructionsOf, contents, List.filter_replicate]
    rfl
  rw [instructionLines, sourceLines_labelBehind, instructionsOf, List.map_append,
    List.filter_append, ← instructionsOf, idles]
  rfl

/-- The words of the text are clear where they should be only if a constant can hold the position of
the label. -/
theorem le_of_labelBehind_clear {count : Nat} {words : List Word} (room : count < largestProgram)
    (clear : List.Forall₂ AddressClear (instructionLines (labelBehind count))
      (words ++ [BitVec.ofNat 16 count])) : count ≤ largestConstant := by
  have last := List.rel_reverse clear
  rw [instructionLines_labelBehind, List.reverse_append, List.reverse_append] at last
  have small : (BitVec.ofNat 16 count).toNat ≤ largestConstant := (List.forall₂_cons.mp last).1
  rw [BitVec.toNat_ofNat] at small
  unfold largestProgram at room
  omega

/-- **A label behind 32768 instructions** is accepted, and the word of the line that names it has its
leading bit set. -/
theorem far_label_breaks_classes : ∃ assembled, assemble (labelBehind 32768) = .ok assembled ∧
    ¬List.Forall₂ AddressClear (instructionLines (labelBehind 32768)) assembled.words := by
  have room : 32768 < largestProgram := by decide
  refine ⟨_, assemble_labelBehind room, ?_⟩
  intro clear
  exact absurd (le_of_labelBehind_clear room clear) (by decide)

/-- A label behind a single instruction is in reach. -/
theorem near_label_keeps_classes : ∃ assembled, assemble (labelBehind 1) = .ok assembled ∧
    List.Forall₂ ComputeMarked (instructionLines (labelBehind 1)) assembled.words ∧
      (List.Forall₂ AddressClear (instructionLines (labelBehind 1)) assembled.words ↔
        ∀ line ∈ instructionLines (labelBehind 1),
          LabelInReach (sourceLines (labelBehind 1)) line) :=
  ⟨_, assemble_labelBehind (by decide),
    classes_apart_iff_labels_in_reach (assemble_labelBehind (by decide))⟩

end JackToolchain.Hack
