import JackToolchain.Proofs.Text.Words
import JackToolchain.Vm.Reader

/-!
# Written form

Stack-machine code that is written down is read back.

## Main Definitions

* `Instruction.name?`, `Instruction.number?` — the name and the number in an instruction.
* `Instruction.IsWritable` — the name is a word and the number an operand.
* `Instruction.spelling` — the words of an instruction.

## Main Statements

* `Instruction.toList_text` — an instruction is written with spaces between its words.
* `Instruction.not_mem_text` — which characters do not occur in it.
* `Instruction.read_text` — a writable instruction is read back from its line.
* `Instruction.isWritable_of_read` — what is read from a line without a comment is writable.
* `read_render_iff` — code is read back from its written form exactly if all of it is writable.
* `isWritable_of_read` — what is read from a text is writable.

## Design Notes

Reading is more liberal than writing: blanks, comments, plus signs and leading zeros leave no trace in the
code.  What does remain of a text is its words, and these are enough to write it again.
-/

namespace JackToolchain.Vm

open Text

/-! ## Instructions -/

namespace Instruction

/-- The name in an instruction. -/
def name? : Instruction → Option String
  | label name | goto name | ifGoto name | call name _ | function name _ => some name
  | push _ _ | pop _ _ | operate _ | return_ => none

/-- The number in an instruction. -/
def number? : Instruction → Option Nat
  | push _ number | pop _ number | call _ number | function _ number => some number
  | operate _ | label _ | goto _ | ifGoto _ | return_ => none

/-- **Writable instructions**: a name is a word, and a number is not too large for an operand, which has
sixteen bits. -/
structure IsWritable (instruction : Instruction) : Prop where
  isWord : ∀ name ∈ instruction.name?, IsWord name
  small : ∀ number ∈ instruction.number?, number ≤ largestOperand

instance (instruction : Instruction) : Decidable instruction.IsWritable :=
  decidable_of_iff ((∀ name ∈ instruction.name?, IsWord name) ∧
      ∀ number ∈ instruction.number?, number ≤ largestOperand)
    ⟨fun ⟨isWord, small⟩ => ⟨isWord, small⟩, fun ⟨isWord, small⟩ => ⟨isWord, small⟩⟩

end Instruction

namespace Instruction

/-- The words of an instruction. -/
def spelling : Instruction → List String
  | push segment index => ["push", segment.text, toString index]
  | pop segment index => ["pop", segment.text, toString index]
  | operate operation => [operation.text]
  | label name => ["label", name]
  | goto name => ["goto", name]
  | ifGoto name => ["if-goto", name]
  | call name argumentCount => ["call", name, toString argumentCount]
  | function name localCount => ["function", name, toString localCount]
  | return_ => ["return"]

theorem spelling_ne_nil (instruction : Instruction) : instruction.spelling ≠ [] := by
  cases instruction <;> exact List.cons_ne_nil _ _

/-- **The written form** of an instruction is its words with spaces between them. -/
theorem toList_text (instruction : Instruction) :
    instruction.text.toList = spaced instruction.spelling := by
  cases instruction with
  | operate | return_ => rfl
  | push | pop | label | goto | ifGoto | call | function =>
      simp [text, spelling, spaced, ToString.toString]

end Instruction

/-! ## Words of an instruction -/

/-- The spelling of a segment is a word. -/
theorem Segment.isWord_text (segment : Segment) : IsWord segment.text := by
  cases segment <;> decide

/-- The spelling of an operation is a word. -/
theorem Operation.isWord_text (operation : Operation) : IsWord operation.text := by
  cases operation <;> decide

namespace Instruction

variable {instruction : Instruction}

/-- An instruction is spelled by its name and by words that are the same for every name. -/
theorem name_or_isWord_of_mem_spelling :
    ∀ word ∈ instruction.spelling, word ∈ instruction.name? ∨ IsWord word := by
  cases instruction with
  | push segment number | pop segment number =>
      exact List.forall_mem_cons.mpr ⟨.inr (by decide), List.forall_mem_cons.mpr
        ⟨.inr segment.isWord_text, List.forall_mem_singleton.mpr (.inr (isWord_numeral number))⟩⟩
  | operate operation => exact List.forall_mem_singleton.mpr (.inr operation.isWord_text)
  | label name | goto name | ifGoto name =>
      exact List.forall_mem_cons.mpr ⟨.inr (by decide), List.forall_mem_singleton.mpr (.inl rfl)⟩
  | call name number | function name number =>
      exact List.forall_mem_cons.mpr ⟨.inr (by decide), List.forall_mem_cons.mpr
        ⟨.inl rfl, List.forall_mem_singleton.mpr (.inr (isWord_numeral number))⟩⟩
  | return_ => exact List.forall_mem_singleton.mpr (.inr (by decide))

/-- A writable instruction consists of words. -/
theorem IsWritable.isWord_of_mem_spelling (writable : instruction.IsWritable) :
    ∀ word ∈ instruction.spelling, IsWord word :=
  fun word member => (name_or_isWord_of_mem_spelling word member).elim (writable.isWord word) id

/-- **The characters of an instruction**: besides its name there is no blank but the spaces. -/
theorem not_mem_text {c : Char} (blank : isBlank c = true) (noSpace : c ≠ ' ')
    (names : ∀ name ∈ instruction.name?, c ∉ name.toList) : c ∉ instruction.text.toList := by
  intro member
  rw [toList_text] at member
  rcases mem_spaced member with space | ⟨word, inSpelling, inside⟩
  · exact noSpace space
  · rcases name_or_isWord_of_mem_spelling word inSpelling with isName | isWord
    · exact names word isName inside
    · exact Bool.noConfusion (blank.symm.trans (isWord.solid c inside))

/-- The words of an instruction spell it. -/
theorem IsWritable.ofWords?_spelling (writable : instruction.IsWritable) :
    ofWords? instruction.spelling = some instruction := by
  have operand {number : Nat} (member : number ∈ instruction.number?) :
      operand? (toString number) = some number :=
    natural?_toString (writable.small number member)
  cases instruction with
  | push segment number | pop segment number =>
      simp only [spelling, ofWords?, Segment.ofText?_text, operand rfl]
      rfl
  | operate operation => cases operation <;> rfl
  | label | goto | ifGoto | return_ => rfl
  | call name number | function name number =>
      simp only [spelling, ofWords?, operand rfl]
      rfl

/-- **A writable instruction** is read back from its line. -/
theorem IsWritable.read_text (writable : instruction.IsWritable) (line : Nat) :
    Instruction.read line instruction.text.toList = .ok instruction := by
  have parts : (words instruction.text.toList).map String.ofList = instruction.spelling := by
    rw [toList_text, words_spaced writable.isWord_of_mem_spelling, List.map_map]
    simp
  unfold Instruction.read
  rw [parts, writable.ofWords?_spelling]

/-- **Whatever words spell** is writable: its name is one of them, and its number an operand. -/
theorem isWritable_of_ofWords? {texts : List String} (areWords : ∀ word ∈ texts, IsWord word)
    (spelled : ofWords? texts = some instruction) : instruction.IsWritable := by
  have noName : ∀ name ∈ (none : Option String), IsWord name := nofun
  have noNumber : ∀ number ∈ (none : Option Nat), number ≤ largestOperand := nofun
  have oneName {keyword name : String} {rest : List String}
      (areWords : ∀ word ∈ keyword :: name :: rest, IsWord word) :
      ∀ other ∈ some name, IsWord other := by
    rintro other ⟨⟩
    exact areWords name (List.mem_cons_of_mem _ List.mem_cons_self)
  have oneNumber {word : String} {number : Nat} (read : operand? word = some number) :
      ∀ other ∈ some number, other ≤ largestOperand := by
    rintro other ⟨⟩
    exact natural?_le read
  unfold ofWords? at spelled
  split at spelled
  -- `return`, an operation
  · obtain rfl := Option.some.inj spelled
    exact ⟨noName, noNumber⟩
  · obtain ⟨operation, -, rfl⟩ := Option.map_eq_some_iff.mp spelled
    exact ⟨noName, noNumber⟩
  -- `push`, `pop`
  iterate 2
    obtain ⟨make, segmentRead, numberRead⟩ := Option.bind_eq_some_iff.mp spelled
    obtain ⟨segment, -, rfl⟩ := Option.map_eq_some_iff.mp segmentRead
    obtain ⟨number, read, rfl⟩ := Option.map_eq_some_iff.mp numberRead
    exact ⟨noName, oneNumber read⟩
  -- `label`, `goto`, `if-goto`
  iterate 3
    obtain rfl := Option.some.inj spelled
    exact ⟨oneName areWords, noNumber⟩
  -- `call`, `function`
  iterate 2
    obtain ⟨number, read, rfl⟩ := Option.map_eq_some_iff.mp spelled
    exact ⟨oneName areWords, oneNumber read⟩
  · exact absurd spelled.symm (Option.some_ne_none _)

/-- **Whatever is read** from a line without a comment is writable. -/
theorem isWritable_of_read {line : Nat} {cs : List Char} (uncommented : ¬ commentSign <:+: cs)
    (found : Instruction.read line cs = .ok instruction) : instruction.IsWritable := by
  unfold Instruction.read at found
  split at found
  · rename_i spelled
    rw [Except.ok.inj found] at spelled
    exact isWritable_of_ofWords?
      (List.forall_mem_map.mpr fun word member => isWord_of_mem_words uncommented member) spelled
  · exact absurd found nofun

end Instruction

/-! ## Code -/

/-- **What is read from a text** is writable. -/
theorem isWritable_of_read {source : String} {code : List Instruction} (found : read source = .ok code) :
    ∀ instruction ∈ code, instruction.IsWritable := by
  intro instruction member
  obtain ⟨⟨line, text⟩, inSource, here⟩ := exists_of_mapM found member
  exact Instruction.isWritable_of_read (not_comment_of_mem_codeLines inSource) here

/-- **Writable code** is read back from its written form. -/
theorem read_render {code : List Instruction} (writable : ∀ instruction ∈ code, instruction.IsWritable) :
    read (render code) = .ok code := by
  have areLines : ∀ text ∈ code.map Instruction.text, IsLine text :=
    List.forall_mem_map.mpr fun instruction member =>
      isLine_spaced (writable instruction member).isWord_of_mem_spelling instruction.toList_text
  rw [read, render, codeLines_unlines areLines]
  clear areLines
  -- the numbers of the lines do not matter
  generalize 1 = first
  induction code generalizing first with
  | nil => rfl
  | cons instruction rest ih =>
      obtain ⟨here, others⟩ := List.forall_mem_cons.mp writable
      have line := codeLine?_spaced here.isWord_of_mem_spelling instruction.spelling_ne_nil
        instruction.toList_text first
      rw [List.map_cons, List.zipIdx_cons, List.filterMap_cons]
      dsimp only
      rw [line, ← instruction.toList_text]
      dsimp only
      rw [List.mapM_cons, ih others]
      dsimp only
      rw [here.read_text]
      rfl

/-- **Code is read back** from its written form exactly if all of it is writable. -/
theorem read_render_iff {code : List Instruction} :
    read (render code) = .ok code ↔ ∀ instruction ∈ code, instruction.IsWritable :=
  ⟨isWritable_of_read, read_render⟩

end JackToolchain.Vm
