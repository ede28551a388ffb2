import JackToolchain.Proofs.Hack.Loading

/-!
# Loaded units

Where the lines of an instruction stand in the assembly of its unit, and in memory behind the assembler.

## Main Definitions

* `Lowering.HasBlock` — the lines of an instruction stand in an assembly, one behind the other.

## Main Statements

* `hasBlock_of_lowerUnits` — the lines of every instruction stand in the assembly, if none is refused.
* `loaded_of_lowerUnits` — the words of lowerable units are all their instructions, loaded.

## Design Notes

What the machine does is told of one instruction whose lines are loaded somewhere, at values for which the
predefined symbols stand for the registers.  This is where such lines and values come from: from the text that is
written for a whole program, and the two passes over it.
-/

namespace JackToolchain

open Hack Vm

/-! ## Blocks of instructions -/

namespace Hack.Lowering

variable {lowering after : Lowering}

/-- The lines of an instruction, lowered somewhere in a unit, stand in an assembly one behind the other. -/
def HasBlock (lowering : Lowering) (unit : String) (instruction : Instruction) : Prop :=
  ∃ reached : Lowering, reached.unit = unit ∧ ∃ lines, reached.Emits instruction lines ∧
    lines <:+: lowering.lines.toList

theorem HasBlock.mono {unit : String} {instruction : Instruction}
    (block : lowering.HasBlock unit instruction)
    (grown : lowering.lines.toList <+: after.lines.toList) : after.HasBlock unit instruction := by
  obtain ⟨reached, inside, lines, emits, part⟩ := block
  exact ⟨reached, inside, lines, emits, part.trans grown.isInfix⟩

/-- An instruction that is not refused leaves its lines behind those that there are. -/
theorem hasBlock_of_add {instruction : Instruction} {position : Nat}
    (added : lowering.add position instruction = .ok after) :
    lowering.lines.toList <+: after.lines.toList ∧ after.unit = lowering.unit ∧
      after.HasBlock lowering.unit instruction := by
  have accepted := added
  unfold Lowering.add at added
  split at added
  case h_2 => exact absurd added nofun
  case h_1 block found =>
    obtain rfl := Except.ok.inj added
    obtain ⟨-, -, unit, -⟩ := lowering.fields_behind instruction.text block instruction
    have lines : (((lowering.note instruction.text).emit block).pass instruction).lines.toList =
        lowering.lines.toList ++ (lowering.notes instruction ++ block) := by
      rw [pass_lines, emit_lines, note_lines, List.append_assoc]
      rfl
    refine ⟨lines ▸ List.prefix_append .., unit, lowering, rfl, _, ⟨position, _, accepted, lines⟩, ?_⟩
    exact lines ▸ (List.suffix_append ..).isInfix

/-- **Code** that is not refused leaves the lines of every instruction. -/
theorem hasBlock_of_addAll {code : List Instruction} {position : Nat}
    (added : lowering.addAll position code = .ok after) :
    lowering.lines.toList <+: after.lines.toList ∧
      ∀ i ∈ code, after.HasBlock lowering.unit i := by
  induction code generalizing lowering position with
  | nil =>
      obtain rfl := Except.ok.inj added
      exact ⟨List.prefix_rfl, List.forall_mem_nil _⟩
  | cons instruction rest ih =>
      rw [addAll] at added
      cases first : lowering.add position instruction with
      | error refusal =>
          rw [first] at added
          cases added
      | ok between =>
          rw [first] at added
          obtain ⟨grown, unit, here⟩ := hasBlock_of_add first
          obtain ⟨grownToo, others⟩ := ih added
          rw [unit] at others
          exact ⟨grown.trans grownToo, List.forall_mem_cons.mpr ⟨here.mono grownToo, others⟩⟩

end Hack.Lowering

/-- **Units** of which none is refused leave the lines of every instruction. -/
theorem hasBlock_of_lowerUnits {units : List CompiledUnit} {lowering after : Lowering}
    (lowered : lowerUnits lowering units = (after, [])) :
    lowering.lines.toList <+: after.lines.toList ∧
      ∀ unit ∈ units, ∀ i ∈ unit.code, after.HasBlock unit.name i := by
  induction units generalizing lowering with
  | nil =>
      obtain rfl := (Prod.mk.inj lowered).1
      exact ⟨List.prefix_rfl, List.forall_mem_nil _⟩
  | cons unit rest ih =>
      rw [lowerUnits] at lowered
      cases added : lowering.addUnit unit.name unit.code with
      | error refusal =>
          rw [added] at lowered
          exact absurd (Prod.mk.inj lowered).2 (List.cons_ne_nil _ _)
      | ok between =>
          rw [added] at lowered
          obtain ⟨grown, here⟩ := Lowering.hasBlock_of_addAll added
          obtain ⟨grownToo, others⟩ := ih lowered
          exact ⟨grown.trans grownToo,
            List.forall_mem_cons.mpr ⟨fun i inCode => (here i inCode).mono grownToo, others⟩⟩

/-! ## Blocks in memory -/

/-- **Lowerable units are loaded.**  If the assembly of lowerable units is accepted, then a memory that holds its
words from its beginning holds the lines of every instruction of a unit, and the values at which it does are those
of the predefined symbols.  If the words are few, everything that the lines load is a constant. -/
theorem loaded_of_lowerUnits {program : Program} {settings : Settings} {units : List CompiledUnit}
    {lowering : Lowering} {assembled : Assembled} (base : settings.stackBase ≤ largestConstant)
    (entry : isSymbol settings.library.entry.toList = true)
    (lowerable : ∀ unit ∈ units, isSymbol unit.name.toList = true ∧ ∀ i ∈ unit.code, IsLowerable i)
    (lowered : lowerUnits (program.opening settings) units = (lowering, []))
    (ok : assemble lowering.text = .ok assembled) :
    Standard assembled.value ∧ ∀ unit ∈ units, ∀ instruction ∈ unit.code,
      ∃ (reached : Lowering) (start : Nat) (lines : List Line), reached.unit = unit.name ∧
        reached.Emits instruction lines ∧ Hack.Loaded (romOf assembled.words) assembled.value start lines ∧
        (assembled.words.length ≤ largestConstant → Addressable assembled.value lines) := by
  refine ⟨standard_of_assemble ok, fun unit member instruction inCode => ?_⟩
  obtain ⟨after, loweredToo, sound⟩ := lowerUnits_sound (opening_sound program base entry) lowerable
  obtain rfl := (Prod.mk.inj (loweredToo.symm.trans lowered)).1
  obtain ⟨reached, inside, lines, emits, front, back, parts⟩ :=
    (hasBlock_of_lowerUnits lowered).2 unit member instruction inCode
  obtain ⟨loaded, addressable⟩ := sound.loaded ok parts.symm
  exact ⟨reached, size front, lines, inside, emits, loaded, addressable⟩

end JackToolchain
