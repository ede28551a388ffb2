import JackToolchain.Hack.Assembler
import JackToolchain.Hack.Line
import JackToolchain.Proofs.Hack.Symbols
import JackToolchain.Proofs.Text.Lines
import Mathlib.Data.Bool.AllAny
import Mathlib.Data.List.TakeWhile

/-!
# Legibility

Generated lines are read back as what they are.

## Main Definitions

* `Line.source?` — what a generated line is for the assembler; it does not see comments.
* `Line.IsLegible` — the names in a line are symbols, its numbers are constants, and a comment stays on
  its line.

## Main Statements

* `Compute.read_text` — a compute instruction is read back from its written form.
* `Compute.ofText_text` — it is not taken for a line of another form.
-/

namespace JackToolchain.Hack

open Text

/-! ## Compute instructions -/

section Splitting

variable {separator : Char} {front : List Char}

theorem splitFront_of_not_mem (absent : separator ∉ front) :
    Compute.splitFront separator front = ([], front) := by
  have all : front.dropWhile (· != separator) = [] :=
    List.dropWhile_eq_nil_iff.mpr fun c member =>
      bne_iff_ne.mpr fun same => absent (same ▸ member)
  unfold Compute.splitFront
  rw [all]

theorem takeWhile_append_separator (absent : separator ∉ front) (behind : List Char) :
    (front ++ separator :: behind).takeWhile (· != separator) = front ∧
      (front ++ separator :: behind).dropWhile (· != separator) = separator :: behind := by
  have all : ∀ c ∈ front, (c != separator) = true :=
    fun c member => bne_iff_ne.mpr fun same => absent (same ▸ member)
  have stop : ¬(fun c => c != separator) separator = true := by simp
  constructor
  · rw [List.takeWhile_append_of_pos all,
      List.takeWhile_cons_of_neg (p := fun c => c != separator) stop, List.append_nil]
  · rw [List.dropWhile_append_of_pos all, List.dropWhile_cons_of_neg (p := fun c => c != separator) stop]

theorem splitFront_append (absent : separator ∉ front) (behind : List Char) :
    Compute.splitFront separator (front ++ separator :: behind) = (front, behind) := by
  obtain ⟨taken, dropped⟩ := takeWhile_append_separator absent behind
  unfold Compute.splitFront
  rw [taken, dropped]

theorem splitBehind_of_not_mem (absent : separator ∉ front) :
    Compute.splitBehind separator front = (front, []) := by
  have all : ∀ c ∈ front, (c != separator) = true :=
    fun c member => bne_iff_ne.mpr fun same => absent (same ▸ member)
  unfold Compute.splitBehind
  rw [List.takeWhile_eq_self_iff.mpr all, List.dropWhile_eq_nil_iff.mpr all]
  rfl

theorem splitBehind_append (absent : separator ∉ front) (behind : List Char) :
    Compute.splitBehind separator (front ++ separator :: behind) = (front, behind) := by
  obtain ⟨taken, dropped⟩ := takeWhile_append_separator absent behind
  unfold Compute.splitBehind
  rw [taken, dropped]
  rfl

end Splitting

/-- Every computation is found by its spelling. -/
theorem Computation.ofText?_text (computation : Computation) :
    Computation.ofText? computation.text = some computation := by
  cases computation with
  | zero | one | minusOne | x | notX | negX | xPlusOne | xMinusOne => decide
  | y s | notY s | negY s | yPlusOne s | yMinusOne s | xPlusY s | xMinusY s | yMinusX s | xAndY s
  | xOrY s => cases s <;> decide

theorem Computation.text_subset (computation : Computation) :
    computation.text.toList ⊆ "01-!DAM+&|".toList := by
  cases computation with
  | zero | one | minusOne | x | notX | negX | xPlusOne | xMinusOne => decide
  | y s | notY s | negY s | yPlusOne s | yMinusOne s | xPlusY s | xMinusY s | yMinusX s | xAndY s
  | xOrY s => cases s <;> decide

theorem Destination.ofLetters?_text (destination : Destination) :
    Destination.ofLetters? destination.text.toList = some destination := by
  obtain ⟨a, d, m⟩ := destination
  cases a <;> cases d <;> cases m <;> decide

theorem Destination.text_subset (destination : Destination) :
    destination.text.toList ⊆ "ADM".toList := by
  obtain ⟨a, d, m⟩ := destination
  cases a <;> cases d <;> cases m <;> decide

theorem Jump.text_subset (jump : Jump) : jump.text.toList ⊆ "JGTEQLNMP".toList := by
  cases jump <;> decide

namespace Compute

/-- The destination of a written instruction, with the sign behind it. -/
def front (compute : Compute) : List Char :=
  if compute.destination = {} then [] else compute.destination.text.toList ++ ['=']

/-- The jump of a written instruction, with the sign in front of it. -/
def behind (compute : Compute) : List Char :=
  if compute.jump = .never then [] else ';' :: compute.jump.text.toList

theorem toList_text (compute : Compute) : compute.text.toList =
    compute.front ++ (compute.computation.text.toList ++ compute.behind) := by
  unfold text front behind
  rw [String.toList_append, String.toList_append, List.append_assoc]
  congr 1
  · split
    · rfl
    · exact String.toList_append
  · congr 1
    split
    · rfl
    · exact String.toList_append

theorem behind_subset (compute : Compute) : compute.behind ⊆ ";JGTEQLNMP".toList := by
  intro c member
  unfold behind at member
  split at member
  · exact absurd member List.not_mem_nil
  · rcases List.mem_cons.mp member with rfl | inJump
    · decide
    · exact List.mem_cons_of_mem _ (compute.jump.text_subset inJump)

theorem front_subset (compute : Compute) : compute.front ⊆ "ADM=".toList := by
  intro c member
  unfold front at member
  split at member
  · exact absurd member List.not_mem_nil
  · rcases List.mem_append.mp member with inDestination | last
    · exact List.mem_append_left ['='] (compute.destination.text_subset inDestination)
    · obtain rfl := List.mem_singleton.mp last
      decide

/-- The characters of written instructions. -/
theorem text_subset (compute : Compute) :
    compute.text.toList ⊆ "ADM=01-!+&|;JGTEQLNP".toList := by
  have first : "ADM=".toList ⊆ "ADM=01-!+&|;JGTEQLNP".toList := by decide
  have second : "01-!DAM+&|".toList ⊆ "ADM=01-!+&|;JGTEQLNP".toList := by decide
  have third : ";JGTEQLNMP".toList ⊆ "ADM=01-!+&|;JGTEQLNP".toList := by decide
  intro c member
  rw [toList_text, List.mem_append, List.mem_append] at member
  rcases member with inFront | inMiddle | inBehind
  · exact first (compute.front_subset inFront)
  · exact second (compute.computation.text_subset inMiddle)
  · exact third (compute.behind_subset inBehind)

/-- None of them is blank, or begins another line, a number or a comment. -/
theorem plain_of_mem : ∀ c ∈ "ADM=01-!+&|;JGTEQLNP".toList,
    isBlank c = false ∧ c ≠ '/' ∧ c ≠ '(' ∧ c ≠ '@' :=
  List.all_iff_forall_prop.mp (by decide)

/-- **Compute instructions** are read back. -/
theorem read_text (compute : Compute) : read compute.text.toList = .ok compute := by
  have visible : compute.text.toList.filter (!isBlank ·) = compute.text.toList := by
    rw [List.filter_eq_self]
    intro c member
    rw [(plain_of_mem c (compute.text_subset member)).1]
    rfl
  have noEquals : '=' ∉ compute.computation.text.toList ++ compute.behind := by
    intro member
    rcases List.mem_append.mp member with inMiddle | inBehind
    · exact absurd (compute.computation.text_subset inMiddle) (by decide)
    · exact absurd (compute.behind_subset inBehind) (by decide)
  have noSemicolon : ';' ∉ compute.computation.text.toList :=
    fun member => absurd (compute.computation.text_subset member) (by decide)
  -- A destination that is left out leaves no equals sign to find, and likewise a jump no semicolon.
  have destination : splitFront '=' compute.text.toList =
      (compute.destination.text.toList,
        compute.computation.text.toList ++ compute.behind) := by
    rw [toList_text, front]
    split
    · rename_i empty
      rw [List.nil_append, splitFront_of_not_mem noEquals, empty]
      rfl
    · rw [List.append_assoc, List.singleton_append]
      exact splitFront_append
        (fun member => absurd (compute.destination.text_subset member) (by decide)) _
  have jump : splitBehind ';' (compute.computation.text.toList ++ compute.behind) =
      (compute.computation.text.toList, compute.jump.text.toList) := by
    rw [behind]
    split
    · rename_i never
      rw [List.append_nil, splitBehind_of_not_mem noSemicolon, never]
      rfl
    · exact splitBehind_append noSemicolon _
  unfold read
  rw [visible, destination]
  dsimp only
  rw [jump]
  dsimp only
  rw [String.ofList_toList, Computation.ofText?_text]
  dsimp only
  rw [Destination.ofLetters?_text]
  dsimp only
  rw [String.ofList_toList, Jump.ofText?_text]

end Compute

/-! ## Lines -/

/-- What a line is for the assembler, which sees no comments. -/
def Line.source? : Line → Option SourceLine
  | .comment _ => none
  | .label name => some (.label name.toList)
  | .address target => some (.address target.text.toList)
  | .compute instruction => some (.compute instruction.text.toList)

/-- **Legible lines.** -/
def Line.IsLegible : Line → Prop
  | .comment content => '\n' ∉ content.toList ∧ '\r' ∉ content.toList
  | .label name => isSymbol name.toList = true
  | .address (.number value) => value ≤ largestConstant
  | .address (.symbol name) => isSymbol name.toList = true
  | .compute _ => True

theorem Compute.isPlain (compute : Compute) : IsPlain compute.text.toList :=
  fun c member => ⟨(plain_of_mem c (compute.text_subset member)).1,
    (plain_of_mem c (compute.text_subset member)).2.1⟩

/-- An instruction is not taken for a line of another form. -/
theorem Compute.ofText_text (compute : Compute) :
    SourceLine.ofText compute.text.toList = .compute compute.text.toList := by
  have other (c : Char) (member : c ∈ compute.text.toList) := plain_of_mem c (compute.text_subset member)
  unfold SourceLine.ofText
  split
  · rename_i same
    exact absurd rfl (other '(' (same ▸ List.mem_cons_self)).2.2.1
  · rename_i same
    exact absurd rfl (other '@' (same ▸ List.mem_cons_self)).2.2.2
  · rfl

theorem Compute.text_ne_nil (compute : Compute) : compute.text.toList ≠ [] := by
  intro empty
  rw [toList_text, List.append_eq_nil_iff, List.append_eq_nil_iff] at empty
  have spelled := compute.computation.ofText?_text
  rw [String.toList_eq_nil_iff.mp empty.2.1] at spelled
  have unspelled : Computation.ofText? "" = none := by decide
  rw [unspelled] at spelled
  exact Option.some_ne_none _ spelled.symm

theorem toList_label (name : String) :
    (Line.label name).text.toList = ['('] ++ (name.toList ++ [')']) := by
  show ("(" ++ name ++ ")").toList = _
  rw [String.toList_append, String.toList_append, List.append_assoc]
  rfl

theorem toList_address (target : Target) :
    (Line.address target).text.toList = ['@'] ++ target.text.toList :=
  String.toList_append

theorem toList_comment (content : String) :
    (Line.comment content).text.toList = '/' :: '/' :: ' ' :: content.toList :=
  String.toList_append

end JackToolchain.Hack
