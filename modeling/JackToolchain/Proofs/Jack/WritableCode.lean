import JackToolchain.Proofs.Jack.ClassLimits
import JackToolchain.Proofs.Vm.WrittenForm

/-!
# Writable code

The code of an accepted text can be written down: its names are words, and its numbers are operands.

## Main Statements

* `Emitted.isWritable` — what is emitted for statements is writable.
* `Class.isWritable` — so is all the code of a class within the limits.
* `isWritable_of_compile` — so is the code of an accepted text.

## Design Notes

Everything in the text is made of characters of symbols, and so are the labels.  Only the names of the
library routines come from outside; nothing else has to be assumed of them than that they are words.  No
bound on declarations or calls is assumed, for their counters have as many bits as an operand.
-/

namespace JackToolchain.Jack.Written

open Vm Hack Text

/-- A counter shows nothing that is too large for an operand. -/
theorem counted_le_operand (steps : Nat) : counted steps ≤ largestOperand := counted_le steps

/-- Whatever fits into an instruction of the machine is an operand. -/
theorem le_operand {value : Nat} (small : value ≤ largestConstant) : value ≤ largestOperand :=
  small.trans (by decide)

/-! ## Instructions -/

section Instructions

variable {name : String} {number : Nat} {segment : Segment}

theorem isWritable_push (small : number ≤ largestOperand) :
    (Instruction.push segment number).IsWritable where
  isWord := nofun
  small := by
    rintro _ ⟨⟩
    exact small

theorem isWritable_pop (small : number ≤ largestOperand) :
    (Instruction.pop segment number).IsWritable where
  isWord := nofun
  small := by
    rintro _ ⟨⟩
    exact small

theorem isWritable_call (isWord : IsWord name) (small : number ≤ largestOperand) :
    (Instruction.call name number).IsWritable where
  isWord := by
    rintro _ ⟨⟩
    exact isWord
  small := by
    rintro _ ⟨⟩
    exact small

end Instructions

/-! ## Statements -/

section Code

variable {library : Library} {cls : Class} {subroutine : Subroutine}

/-- **What is emitted** is writable. -/
theorem Emitted.isWritable {table : Symbol.Table} {className : String} {parts : Parts}
    {instruction : Instruction} (emitted : Emitted library table className parts instruction)
    (routines : ∀ name ∈ library.names, IsWord name)
    (cells : ∀ name entry, table.lookup? name = some entry →
      entry.index ≤ largestCount ∧ isSymbol entry.type.toList = true)
    (owner : isSymbol className.toList = true) (proper : ∀ token ∈ parts.tokens, token.IsProper)
    (limits : ∀ content ∈ parts.strings, WithinLimits content) : instruction.IsWritable := by
  -- a name that is not declared has the constant zero for its place
  have place (name : String) : (placeOf table name).index ≤ largestOperand := by
    unfold placeOf
    cases found : table.lookup? name with
    | none => exact Nat.zero_le _
    | some entry => exact (cells name entry found).1
  cases emitted with
  | integer member => exact isWritable_push (le_operand (proper _ member))
  | zero => exact isWritable_push (Nat.zero_le _)
  | length member => exact isWritable_push (le_operand (limits _ member).2)
  | character member inContent => exact isWritable_push (le_operand ((limits _ member).1 _ inContent))
  | @load name => exact isWritable_push (place name)
  | @store name => exact isWritable_pop (place name)
  | receiver found => exact isWritable_push (cells _ _ found).1
  | self | element | restore => exact isWritable_push (Nat.zero_le _)
  | address => exact isWritable_pop (by decide)
  | storeElement | scratch => exact isWritable_pop (Nat.zero_le _)
  | operate | return_ => exact ⟨nofun, nofun⟩
  | library isRoutine few => exact isWritable_call (routines _ isRoutine) (few.trans (by decide))
  | @call callee count spelled =>
      refine isWritable_call (isWord_of_isSymbol ?_) (counted_le_operand _)
      exact isSymbol_function (fun name entry found => (cells name entry found).2) owner callee
        fun token inside => proper token (spelled inside)
  | label isLabel | goto isLabel | ifGoto isLabel =>
      refine ⟨?_, nofun⟩
      rintro _ ⟨⟩
      exact isWord_of_isSymbol (isSymbol_of_isLabelOf isLabel)

/-! ## Classes -/

/-- How a subroutine comes by its object: only a constructor calls a routine. -/
theorem isWritable_prologue (routines : ∀ name ∈ library.names, IsWord name) (fields : Nat)
    {subroutine : Jack.Subroutine} {i : Instruction}
    (inside : i ∈ subroutine.prologue library (counted fields)) : i.IsWritable := by
  rcases prologue_cases inside with rfl | ⟨-, rfl⟩ | ⟨-, rfl | rfl⟩
  · exact isWritable_pop (Nat.zero_le _)
  · exact isWritable_push (Nat.zero_le _)
  · exact isWritable_push (counted_le_operand fields)
  · exact isWritable_call (routines _ (by simp [Library.names])) (by decide)

/-- **The code of a class** is writable, if its string constants are within the limits. -/
theorem Class.isWritable (routines : ∀ name ∈ library.names, IsWord name)
    (proper : ∀ token ∈ cls.tokens, token.IsProper) (limits : cls.WithinLimits) (first : Nat) :
    ∀ i ∈ (cls.resolved first).code library, i.IsWritable := by
  intro i inCode
  obtain ⟨resolved, inClass, inside⟩ := List.mem_flatMap.mp inCode
  obtain ⟨subroutine, member, number, rfl⟩ := mem_resolvedSubroutines inClass
  have owner := isSymbol_of_isName (Class.isName_name proper)
  rw [code_eq_bodyCode] at inside
  -- the header, then the body
  rcases List.mem_cons.mp inside with rfl | inBody
  · refine ⟨?_, ?_⟩
    · rintro name ⟨⟩
      exact isWord_of_isSymbol (isSymbol_qualifiedName owner (Subroutine.isName_name member proper))
    · rintro number ⟨⟩
      exact counted_le_operand _
  · rcases bodyCode_cases inBody with inPrologue | emitted
    · exact isWritable_prologue routines _ inPrologue
    · exact emitted.isWritable routines
        (fun _ _ found => (Subroutine.sound_table member proper).lookup found) owner
        (fun token inStatements => proper token (mem_tokens_of_body member inStatements))
        (limits subroutine member)

end Code

/-- **The code of an accepted text** is writable, if the names of the library routines are words. -/
theorem isWritable_of_compile {session : Session} {source : String} {compiled : CompiledClass}
    (routines : ∀ name ∈ session.library.names, IsWord name)
    (accepted : (session.compile source).1 = .ok compiled) : ∀ i ∈ compiled.code, i.IsWritable := by
  obtain ⟨tokens, cls, read, spelled, -, admissible, rfl, -⟩ := compile_to_resolved accepted
  have proper := isProper_of_spelled read spelled
  obtain ⟨-, limits⟩ := (admissible_iff proper).mp admissible
  exact Class.isWritable routines proper limits session.nextLabel

end JackToolchain.Jack.Written
