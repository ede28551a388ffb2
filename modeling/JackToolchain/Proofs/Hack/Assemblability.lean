import JackToolchain.Proofs.Hack.Linking
import JackToolchain.Proofs.Hack.Passes
import Mathlib.Tactic.SplitIfs

/-!
# Assemblability

When the lines of an instruction that was lowered are accepted by the assembler, each by itself.

## Main Definitions

* `Line.IsAccepted` — what the assembler sees on a line is sound.
* `IsFarCell` — an access to a cell whose index no address instruction can hold.

## Main Statements

* `Lowering.add_accepted_iff` — the lines of an instruction are accepted if and only if it does not access
  a far cell.
* `far_local_refused_late` — a local with too large an index is lowered, to a line that is not accepted.
* `Lowering.addUnit_accepted_iff` — so it is with the lines of a unit.

## Design Notes

A constant and a frame are measured against what an address instruction can hold when they are lowered, the
offset in a segment whose address is in a register is not.  Cells of the static segment have names, so that
their indices may be as large as they like.
-/

namespace JackToolchain.Hack

open Text Vm Line

/-! ## Lines -/

/-- **Accepted lines**: with what the assembler sees on the line nothing is wrong by itself. -/
def Line.IsAccepted (line : Line) : Prop := ∀ content ∈ line.seen, content.IsSound

theorem Line.isAccepted_of_readable {line : Line} (readable : line.IsReadable) :
    line.IsAccepted ↔ ∀ content ∈ line.source?, content.IsSound := by
  rw [IsAccepted, seen_of_readable readable]
  cases line.source? with
  | none => exact iff_of_true (List.forall_mem_nil _) nofun
  | some content =>
      exact List.forall_mem_singleton.trans
        ⟨fun sound _ same => Option.some.inj same ▸ sound, fun sound => sound content rfl⟩

/-- Legible lines are accepted. -/
theorem Line.IsLegible.isAccepted {line : Line} (legible : line.IsLegible) : line.IsAccepted :=
  (isAccepted_of_readable legible.isReadable).mpr fun _ source => isSound_source legible source

/-- **A number** is accepted if and only if an address instruction can hold it. -/
theorem isAccepted_number_iff {value : Nat} : (number value).IsAccepted ↔ value ≤ largestConstant := by
  have readable : (number value).IsReadable := trivial
  refine ⟨fun accepted => ?_, fun small => ?_⟩
  · have sound : (SourceLine.address (toString value).toList).IsSound :=
      (isAccepted_of_readable readable).mp accepted _ rfl
    rw [SourceLine.IsSound, head?_numeral, if_pos rfl] at sound
    obtain ⟨read, isRead⟩ := Option.isSome_iff_exists.mp sound
    have same : read = value := by
      rw [(natural?_of_digit (head?_numeral value) isRead).2, Nat.toString_eq_ofList_toDigits,
        String.toList_ofList, decimalValue_toDigits]
    exact same ▸ natural?_le isRead
  · have legible : (number value).IsLegible := small
    exact legible.isAccepted

/-- A block that begins with a number. -/
theorem accepted_number_cons_iff {value : Nat} {rest : List Line}
    (legible : ∀ line ∈ rest, line.IsLegible) :
    (∀ line ∈ number value :: rest, line.IsAccepted) ↔ value ≤ largestConstant := by
  rw [List.forall_mem_cons, isAccepted_number_iff]
  exact and_iff_left fun line member => (legible line member).isAccepted

/-! ## Far cells -/

/-- **Far cells**: cells of a segment whose address is in a register, behind an offset that no address
instruction can hold. -/
def IsFarCell : Instruction → Prop
  | .push segment index | .pop segment index =>
    segment ∈ [Segment.local_, .argument, .this, .that] ∧ 32767 < index
  | _ => False

section Segments

variable {unit register name : String} {segment : Segment} {index : Nat} {block : List Line}

/-- Exactly the four segments with an address in a register are accessed through one. -/
theorem mem_of_access_indirect (found : access? unit segment index = some (.indirect register)) :
    segment ∈ [Segment.local_, .argument, .this, .that] := by
  cases segment with
  | local_ | argument | this | that => decide
  | constant | static_ => exact absurd (Option.some.inj found) (by rintro ⟨⟩)
  | pointer | temp =>
      rw [access?] at found
      split_ifs at found <;> exact absurd (Option.some.inj found) (by rintro ⟨⟩)

theorem access_indirect_of_mem (unit : String) (index : Nat)
    (member : segment ∈ [Segment.local_, .argument, .this, .that]) :
    ∃ register, access? unit segment index = some (.indirect register) := by
  cases segment with
  | local_ | argument | this | that => exact ⟨_, rfl⟩
  | constant | static_ | pointer | temp => exact absurd member (by decide)

/-- A cell behind an address in a register is near if an address instruction can hold its offset,… -/
theorem near_iff_of_indirect (found : access? unit segment index = some (.indirect register)) :
    index ≤ largestConstant ↔
      ¬ (segment ∈ [Segment.local_, .argument, .this, .that] ∧ 32767 < index) := by
  rw [and_iff_right (mem_of_access_indirect found), Nat.not_lt]
  exact Iff.rfl

/-- …and a cell with an address of its own is near. -/
theorem near_of_direct (found : access? unit segment index = some (.direct name)) :
    ¬ (segment ∈ [Segment.local_, .argument, .this, .that] ∧ 32767 < index) := by
  rintro ⟨member, -⟩
  obtain ⟨register, indirect⟩ := access_indirect_of_mem unit index member
  exact absurd (found.symm.trans indirect) (by rintro ⟨⟩)

/-- **A push** that is lowered is accepted unless its cell is far. -/
theorem accepted_pushBlock_iff (symbol : isSymbol unit.toList = true)
    (found : pushBlock? unit segment index = some block) :
    (∀ line ∈ block, line.IsAccepted) ↔ ¬ IsFarCell (.push segment index) := by
  cases accessed : access? unit segment index with
  | none =>
      rw [pushBlock?, accessed] at found
      exact absurd found.symm (Option.some_ne_none _)
  | some access =>
      have legible := Access.isLegible symbol accessed
      rw [pushBlock?, accessed] at found
      cases access with
      | constant =>
          dsimp only at found
          split_ifs at found with small
          obtain rfl := Option.some.inj found
          have rest : Declares ([setD .a] ++ pushD) [] := .compute declares_pushD
          exact iff_of_true ((accepted_number_cons_iff rest.legible).mpr small)
            fun far => absurd small (Nat.not_le.mpr far.2)
      | indirect register =>
          obtain rfl := Option.some.inj found
          -- The index is loaded first, and this line alone can be refused.
          have rest : Declares ([setD .a, Line.symbol register, setA (.xPlusY .memory), setD .m] ++ pushD)
              [] := .compute (.symbol legible (.compute (.compute declares_pushD)))
          exact (accepted_number_cons_iff rest.legible).trans (near_iff_of_indirect accessed)
      | direct name =>
          obtain rfl := Option.some.inj found
          have all : Declares ([Line.symbol name, setD .m] ++ pushD) [] :=
            .symbol legible (.compute declares_pushD)
          exact iff_of_true (fun line member => (all.legible line member).isAccepted)
            (near_of_direct accessed)

/-- **A pop** likewise. -/
theorem accepted_popBlock_iff (symbol : isSymbol unit.toList = true)
    (found : popBlock? unit segment index = some block) :
    (∀ line ∈ block, line.IsAccepted) ↔ ¬ IsFarCell (.pop segment index) := by
  cases accessed : access? unit segment index with
  | none =>
      rw [popBlock?, accessed] at found
      exact absurd found.symm (Option.some_ne_none _)
  | some access =>
      have legible := Access.isLegible symbol accessed
      have scratch := isSymbol_register "R13" (by simp)
      rw [popBlock?, accessed] at found
      cases access with
      | constant => exact absurd found.symm (Option.some_ne_none _)
      | indirect register =>
          obtain rfl := Option.some.inj found
          have stored : Declares [.symbol "R13", setA .m, setM .d] [] :=
            .symbol scratch (.compute (.compute .nil))
          have address : Declares [setD .a, .symbol register, setD (.xPlusY .memory), .symbol "R13",
              setM .d] [] :=
            .compute (.symbol legible (.compute (.symbol scratch (.compute .nil))))
          have rest := (address.append declares_popD).append stored
          exact (accepted_number_cons_iff rest.legible).trans (near_iff_of_indirect accessed)
      | direct name =>
          obtain rfl := Option.some.inj found
          have all : Declares (popD ++ [Line.symbol name, setM .d]) [] :=
            declares_popD.append (.symbol legible (.compute .nil))
          exact iff_of_true (fun line member => (all.legible line member).isAccepted)
            (near_of_direct accessed)

end Segments

/-! ## Instructions -/

namespace Lowering

variable {lowering after : Lowering} {instruction : Instruction} {block : List Line} {position : Nat}

/-- **Blocks** of instructions whose names are symbols are accepted unless a cell is far. -/
theorem accepted_block_iff (named : lowering.IsNamed)
    (symbols : ∀ name ∈ instruction.name?, isSymbol name.toList = true)
    (found : lowering.block? instruction = some block) :
    (∀ line ∈ block, line.IsAccepted) ↔ ¬ IsFarCell instruction := by
  have only (near : ¬ IsFarCell instruction) (lowerable : IsLowerable instruction) :
      (∀ line ∈ block, line.IsAccepted) ↔ ¬ IsFarCell instruction := by
    obtain ⟨same, foundSame, declares⟩ := declares_block named lowerable
    obtain rfl := Option.some.inj (found.symm.trans foundSame)
    exact iff_of_true (fun line member => (declares.legible line member).isAccepted) near
  cases instruction with
  | push segment index => exact accepted_pushBlock_iff named.unit found
  | pop segment index => exact accepted_popBlock_iff named.unit found
  | operate operation => exact only not_false trivial
  | label name | goto name | ifGoto name =>
      exact only not_false (isSymbolCharacter_of_isSymbol (symbols name rfl))
  | call name argumentCount =>
      rw [block?] at found
      split_ifs at found with small
      exact only not_false ⟨symbols name rfl, small⟩
  | function name localCount => exact only not_false (symbols name rfl)
  | return_ => exact only not_false trivial

/-- The comment of an instruction is accepted. -/
theorem accepted_notes (symbols : ∀ name ∈ instruction.name?, isSymbol name.toList = true) :
    ∀ line ∈ lowering.notes instruction, line.IsAccepted := by
  unfold notes
  split
  · have legible : (Line.comment instruction.text).IsLegible :=
      isOneLine_of_characters fun name member => isSymbolCharacter_of_isSymbol (symbols name member)
    exact List.forall_mem_singleton.mpr legible.isAccepted
  · exact List.forall_mem_nil _

/-- **Instructions** whose names are symbols, in a unit and a function whose names are: if one is lowered,
its lines are accepted if and only if it does not access a far cell. -/
theorem add_accepted_iff (named : lowering.IsNamed)
    (symbols : ∀ name ∈ instruction.name?, isSymbol name.toList = true)
    (added : lowering.add position instruction = .ok after) :
    ∃ appended, after.lines.toList = lowering.lines.toList ++ appended ∧
      ((∀ line ∈ appended, line.IsAccepted) ↔ ¬ IsFarCell instruction) := by
  rw [add] at added
  cases found : lowering.block? instruction with
  | none => exact absurd (found ▸ added) (by rintro ⟨⟩)
  | some block =>
      rw [found] at added
      obtain rfl := Except.ok.inj added
      refine ⟨lowering.notes instruction ++ block, ?_, ?_⟩
      · rw [pass_lines, emit_lines, note_lines, List.append_assoc]
        rfl
      · rw [List.forall_mem_append, accepted_block_iff named symbols found]
        exact and_iff_right (accepted_notes symbols)

/-- The farthest local that an address instruction reaches is read by accepted lines. -/
theorem near_local_accepted :
    ({ annotate := true, unit := "Main" } : Lowering).IsNamed ∧
      ∃ after, ({ annotate := true, unit := "Main" } : Lowering).add 1 (.push .local_ 32767) = .ok after ∧
        ∃ appended, after.lines.toList = [] ++ appended ∧ ∀ line ∈ appended, line.IsAccepted := by
  have named : ({ annotate := true, unit := "Main" } : Lowering).IsNamed := ⟨by decide, .inl rfl⟩
  have symbols : ∀ name ∈ (Instruction.push .local_ 32767).name?, isSymbol name.toList = true := nofun
  refine ⟨named, _, rfl, ?_⟩
  obtain ⟨appended, lines, accepted⟩ := add_accepted_iff named symbols
    (rfl : ({ annotate := true, unit := "Main" } : Lowering).add 1 (.push .local_ 32767) = .ok _)
  exact ⟨appended, lines, accepted.mpr fun far => absurd far.2 (by decide)⟩

/-- **A local with too large an index** is lowered nevertheless, to lines one of which is not accepted. -/
theorem far_local_refused_late :
    ({ annotate := false, unit := "Main" } : Lowering).IsNamed ∧
      ∃ after, ({ annotate := false, unit := "Main" } : Lowering).add 1 (.push .local_ 32768) = .ok after ∧
        ¬ ∀ line ∈ after.lines.toList, line.IsAccepted := by
  refine ⟨⟨by decide, .inl rfl⟩, _, rfl, fun accepted => ?_⟩
  have first := accepted (number 32768) List.mem_cons_self
  exact absurd (isAccepted_number_iff.mp first) (by decide)

/-! ## Units -/

/-- Behind an instruction whose name is a symbol there is still a name that labels can be put to. -/
theorem IsNamed.of_add (named : lowering.IsNamed)
    (symbols : ∀ name ∈ instruction.name?, isSymbol name.toList = true)
    (added : lowering.add position instruction = .ok after) : after.IsNamed := by
  rw [add] at added
  cases found : lowering.block? instruction with
  | none => exact absurd (found ▸ added) (by rintro ⟨⟩)
  | some block =>
      rw [found] at added
      obtain rfl := Except.ok.inj added
      obtain ⟨-, -, unit, function⟩ := lowering.fields_behind instruction.text block instruction
      refine ⟨unit ▸ named.unit, ?_⟩
      rw [function]
      cases instruction with
      | function name localCount => exact .inr (symbols name rfl)
      | push | pop | operate | label | goto | ifGoto | call | return_ => exact named.function

/-- **Code** likewise. -/
theorem addAll_accepted_iff {code : List Instruction} (named : lowering.IsNamed)
    (symbols : ∀ instruction ∈ code, ∀ name ∈ instruction.name?, isSymbol name.toList = true)
    (added : lowering.addAll position code = .ok after) :
    ∃ appended, after.lines.toList = lowering.lines.toList ++ appended ∧
      ((∀ line ∈ appended, line.IsAccepted) ↔ ∀ instruction ∈ code, ¬ IsFarCell instruction) := by
  induction code generalizing lowering position with
  | nil =>
      obtain rfl := Except.ok.inj added
      exact ⟨[], (List.append_nil _).symm, iff_of_true (List.forall_mem_nil _) (List.forall_mem_nil _)⟩
  | cons instruction rest ih =>
      obtain ⟨here, others⟩ := List.forall_mem_cons.mp symbols
      rw [addAll] at added
      cases first : lowering.add position instruction with
      | error refusal => exact absurd (first ▸ added) (by rintro ⟨⟩)
      | ok between =>
          rw [first] at added
          obtain ⟨block, lines, accepted⟩ := add_accepted_iff named here first
          obtain ⟨more, linesBehind, acceptedBehind⟩ := ih (named.of_add here first) others added
          refine ⟨block ++ more, ?_, ?_⟩
          · rw [linesBehind, lines, List.append_assoc]
          · rw [List.forall_mem_append, List.forall_mem_cons, accepted, acceptedBehind]

/-- **Units** whose names are symbols: if one is lowered, its lines are accepted if and only if none of its
instructions accesses a far cell. -/
theorem addUnit_accepted_iff {name : String} {code : List Instruction}
    (symbol : isSymbol name.toList = true)
    (symbols : ∀ instruction ∈ code, ∀ name ∈ instruction.name?, isSymbol name.toList = true)
    (added : lowering.addUnit name code = .ok after) :
    ∃ appended, after.lines.toList = lowering.lines.toList ++ appended ∧
      ((∀ line ∈ appended, line.IsAccepted) ↔ ∀ instruction ∈ code, ¬ IsFarCell instruction) := by
  have named : { lowering with unit := name, function := "" }.IsNamed := ⟨symbol, .inl rfl⟩
  have run := addAll_accepted_iff named symbols added
  exact run

end Lowering

end JackToolchain.Hack
