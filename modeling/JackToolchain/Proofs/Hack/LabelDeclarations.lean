import JackToolchain.Hack.Lowering
import JackToolchain.Proofs.Hack.Legibility

/-!
# Label declarations

Which labels generated assembly declares.

## Main Definitions

* `Declares` — legible lines with the labels that they declare, in order.
* `Lowering.declared` — the labels that the block of an instruction declares.
* `IsLowerable` — an instruction that is lowered in every unit, to legible lines.

## Main Statements

* `Lowering.declares_block` — lowerable instructions have blocks, and these declare the labels that they
  should.
-/

namespace JackToolchain.Hack

open Text Vm Line

/-! ## Lines and their labels -/

/-- The label that a line declares. -/
def Line.label? : Line → Option String
  | .label name => some name
  | _ => none

/-- The labels that lines declare. -/
def declarations (lines : List Line) : List String := lines.filterMap Line.label?

/-- **Legible lines**, and the labels that they declare. -/
structure Declares (lines : List Line) (labels : List String) : Prop where
  legible : ∀ line ∈ lines, line.IsLegible
  declared : declarations lines = labels

namespace Declares

variable {front behind : List Line} {labels more : List String} {name : String}

theorem nil : Declares [] [] := ⟨List.forall_mem_nil _, rfl⟩

theorem append (first : Declares front labels) (second : Declares behind more) :
    Declares (front ++ behind) (labels ++ more) where
  legible := List.forall_mem_append.mpr ⟨first.legible, second.legible⟩
  declared := by rw [declarations, List.filterMap_append, ← first.declared, ← second.declared]; rfl

/-- A line that declares nothing. -/
theorem cons {line : Line} (legible : line.IsLegible) (silent : line.label? = none)
    (rest : Declares behind labels) : Declares (line :: behind) labels where
  legible := List.forall_mem_cons.mpr ⟨legible, rest.legible⟩
  declared := by rw [declarations, List.filterMap_cons_none silent, ← rest.declared]; rfl

theorem label (symbol : isSymbol name.toList = true) (rest : Declares behind labels) :
    Declares (.label name :: behind) (name :: labels) where
  legible := List.forall_mem_cons.mpr ⟨symbol, rest.legible⟩
  declared := by rw [← rest.declared]; rfl

theorem symbol (isSymbol : isSymbol name.toList = true) (rest : Declares behind labels) :
    Declares (Line.symbol name :: behind) labels :=
  cons isSymbol rfl rest

theorem number {value : Nat} (small : value ≤ largestConstant) (rest : Declares behind labels) :
    Declares (Line.number value :: behind) labels :=
  cons small rfl rest

theorem compute {instruction : Compute} (rest : Declares behind labels) :
    Declares (.compute instruction :: behind) labels :=
  cons trivial rfl rest

/-- Several blocks that declare nothing. -/
theorem flatten {blocks : List (List Line)} (each : ∀ block ∈ blocks, Declares block []) :
    Declares blocks.flatten [] := by
  induction blocks with
  | nil => exact nil
  | cons block rest ih =>
      obtain ⟨here, others⟩ := List.forall_mem_cons.mp each
      exact here.append (ih others)

end Declares

/-! ## Blocks -/

/-- The names of the registers are symbols. -/
theorem isSymbol_register : ∀ name ∈ ["SP", "LCL", "ARG", "THIS", "THAT", "R13", "R14", "R15"],
    isSymbol name.toList = true := by
  decide

theorem declares_pushD : Declares pushD [] :=
  .symbol (isSymbol_register "SP" (by simp)) (.compute (.compute
    (.symbol (isSymbol_register "SP" (by simp)) (.compute .nil))))

theorem declares_popD : Declares popD [] :=
  .symbol (isSymbol_register "SP" (by simp)) (.compute (.compute .nil))

theorem declares_binaryBlock (result : Computation) : Declares (binaryBlock result) [] :=
  declares_popD.append (.compute (.compute .nil))

theorem declares_unaryBlock (result : Computation) : Declares (unaryBlock result) [] :=
  .symbol (isSymbol_register "SP" (by simp)) (.compute (.compute .nil))

theorem isSymbol_comparisonFails (n : Nat) : isSymbol (comparisonFails n).toList = true :=
  isSymbol_numbered "CMP_FALSE" n (by decide)

theorem isSymbol_comparisonEnds (n : Nat) : isSymbol (comparisonEnds n).toList = true :=
  isSymbol_numbered "CMP_END" n (by decide)

theorem isSymbol_returnAddress (n : Nat) : isSymbol (returnAddress n).toList = true :=
  isSymbol_numbered "RET_ADDRESS" n (by decide)

/-- A comparison declares two labels. -/
theorem declares_comparisonBlock (n : Nat) (inverse : Jump) :
    Declares (comparisonBlock n inverse) [comparisonFails n, comparisonEnds n] := by
  have stack := isSymbol_register "SP" (by simp)
  have fails := isSymbol_comparisonFails n
  have ends := isSymbol_comparisonEnds n
  refine declares_popD.append (.compute (.compute (.symbol fails (.compute ?_))))
  refine .symbol stack (.compute (.compute (.symbol ends (.compute ?_))))
  exact .label fails (.symbol stack (.compute (.compute (.label ends .nil))))

theorem declares_saveBlock {register : String} (symbol : isSymbol register.toList = true) :
    Declares (saveBlock register) [] :=
  (Declares.symbol symbol (.compute .nil)).append declares_pushD

/-- A call declares the label to which it returns. -/
theorem declares_callBlock (n : Nat) {name : String} {argumentCount : Nat}
    (symbol : isSymbol name.toList = true) (small : frameSize + argumentCount ≤ largestConstant) :
    Declares (callBlock n name argumentCount) [returnAddress n] := by
  have returns := isSymbol_returnAddress n
  have saved : Declares (["LCL", "ARG", "THIS", "THAT"].flatMap saveBlock) [] := by
    refine Declares.flatten (List.forall_mem_map.mpr fun register member => ?_)
    refine declares_saveBlock (isSymbol_register register ?_)
    exact List.mem_cons_of_mem _ (List.mem_append_left ["R13", "R14", "R15"] member)
  have jumps : Declares [.symbol name, .jumpAlways, .label (returnAddress n)] [returnAddress n] :=
    .symbol symbol (.compute (.label returns .nil))
  have frame : Declares [.symbol "SP", setD .m, .number (frameSize + argumentCount),
      setD (.xMinusY .address), .symbol "ARG", setM .d, .symbol "SP", setD .m, .symbol "LCL",
      setM .d] [] := by
    refine .symbol (isSymbol_register "SP" (by simp)) (.compute (.number small (.compute ?_)))
    refine .symbol (isSymbol_register "ARG" (by simp)) (.compute ?_)
    refine .symbol (isSymbol_register "SP" (by simp)) (.compute ?_)
    exact .symbol (isSymbol_register "LCL" (by simp)) (.compute .nil)
  have address : Declares [.symbol (returnAddress n), setD .a] [] :=
    .symbol returns (.compute .nil)
  exact ((address.append declares_pushD).append saved).append (frame.append jumps)

theorem declares_restoreBlock {register : String} (symbol : isSymbol register.toList = true) :
    Declares (restoreBlock register) [] :=
  .symbol (isSymbol_register "R14" (by simp)) (.compute (.compute (.symbol symbol (.compute .nil))))

theorem declares_returnBlock : Declares returnBlock [] := by
  have argument := isSymbol_register "ARG" (by simp)
  have stack := isSymbol_register "SP" (by simp)
  have frame : Declares [.symbol "LCL", setD .m, .symbol "R14", setM .d, .number frameSize,
      setA (.xMinusY .address), setD .m, .symbol "R15", setM .d] [] := by
    refine .symbol (isSymbol_register "LCL" (by simp)) (.compute ?_)
    refine .symbol (isSymbol_register "R14" (by simp)) (.compute (.number (by decide) ?_))
    exact .compute (.compute (.symbol (isSymbol_register "R15" (by simp)) (.compute .nil)))
  have result : Declares [.symbol "ARG", setA .m, setM .d, .symbol "ARG",
      setD (.yPlusOne .memory), .symbol "SP", setM .d] [] :=
    .symbol argument (.compute (.compute (.symbol argument (.compute
      (.symbol stack (.compute .nil))))))
  have restored : Declares (["THAT", "THIS", "ARG", "LCL"].flatMap restoreBlock) [] := by
    refine Declares.flatten (List.forall_mem_map.mpr fun register member => ?_)
    refine declares_restoreBlock (isSymbol_register register ?_)
    have registers : ∀ name ∈ ["THAT", "THIS", "ARG", "LCL"],
        name ∈ ["SP", "LCL", "ARG", "THIS", "THAT", "R13", "R14", "R15"] := by decide
    exact registers register member
  have back : Declares [.symbol "R15", setA .m, jumpAlways] [] :=
    .symbol (isSymbol_register "R15" (by simp)) (.compute (.compute .nil))
  exact (((frame.append declares_popD).append result).append restored).append back

/-- A function declares its name. -/
theorem declares_functionBlock {name : String} (localCount : Nat)
    (symbol : isSymbol name.toList = true) : Declares (functionBlock name localCount) [name] := by
  have stack := isSymbol_register "SP" (by simp)
  refine .label symbol (Declares.flatten fun block member => ?_)
  rw [List.eq_of_mem_replicate member]
  exact .symbol stack (.compute (.compute (.symbol stack (.compute .nil))))

/-! ## Segments -/

/-- How a segment may be accessed: every name and number in it is in order. -/
def Access.IsLegible : Access → Prop
  | .constant => True
  | .indirect register => isSymbol register.toList = true
  | .direct name => isSymbol name.toList = true

/-- A cell that every unit has. -/
def HasCell (segment : Segment) (index : Nat) : Prop :=
  index ≤ largestConstant ∧ (segment = .pointer → index ≤ 1) ∧ (segment = .temp → index < 8)

/-- However a cell is accessed, this is legible. -/
theorem Access.isLegible {unit : String} {segment : Segment} {index : Nat} {access : Access}
    (symbol : isSymbol unit.toList = true) (found : access? unit segment index = some access) :
    access.IsLegible := by
  cases segment with
  | constant =>
      obtain rfl := Option.some.inj found
      trivial
  | local_ | argument | this | that =>
      obtain rfl := Option.some.inj found
      exact isSymbol_register _ (by simp)
  | static_ =>
      obtain rfl := Option.some.inj found
      exact isSymbol_joined "." symbol (by decide) fun c member =>
        isSymbolCharacter_of_isDigit (isDigit_of_mem_numeral member)
  | pointer =>
      rw [access?] at found
      split at found
      · obtain rfl := Option.some.inj found
        exact isSymbol_register "THIS" (by simp)
      · split at found
        · obtain rfl := Option.some.inj found
          exact isSymbol_register "THAT" (by simp)
        · exact absurd found.symm (Option.some_ne_none _)
  | temp =>
      rw [access?] at found
      split at found
      · obtain rfl := Option.some.inj found
        exact isSymbol_numbered "R" (5 + index) (by decide)
      · exact absurd found.symm (Option.some_ne_none _)

/-- **Access.**  A cell that every unit has is accessed legibly, in the constant segment as a constant. -/
theorem access_legible {unit : String} {segment : Segment} {index : Nat}
    (symbol : isSymbol unit.toList = true) (cell : HasCell segment index) :
    ∃ access, access? unit segment index = some access ∧ access.IsLegible ∧
      (access = .constant → segment = .constant) := by
  obtain ⟨-, pointer, temporary⟩ := cell
  have reached : ∃ access, access? unit segment index = some access ∧
      (access = .constant → segment = .constant) := by
    cases segment with
    | constant => exact ⟨_, rfl, fun _ => rfl⟩
    | local_ | argument | this | that | static_ => exact ⟨_, rfl, nofun⟩
    | pointer =>
        rcases Nat.le_one_iff_eq_zero_or_eq_one.mp (pointer rfl) with rfl | rfl
        · exact ⟨_, rfl, nofun⟩
        · exact ⟨_, rfl, nofun⟩
    | temp =>
        rw [access?, if_pos (temporary rfl)]
        exact ⟨_, rfl, nofun⟩
  obtain ⟨access, found, constant⟩ := reached
  exact ⟨access, found, Access.isLegible symbol found, constant⟩

theorem declares_pushBlock {unit : String} {segment : Segment} {index : Nat}
    (symbol : isSymbol unit.toList = true) (cell : HasCell segment index) :
    ∃ block, pushBlock? unit segment index = some block ∧ Declares block [] := by
  obtain ⟨access, found, legible, -⟩ := access_legible symbol cell
  unfold pushBlock?
  rw [found]
  cases access with
  | constant =>
      dsimp only
      rw [if_pos cell.1]
      exact ⟨_, rfl, (Declares.number cell.1 (.compute .nil)).append declares_pushD⟩
  | indirect register =>
      have address : Declares [.number index, setD .a, .symbol register, setA (.xPlusY .memory),
          setD .m] [] :=
        .number cell.1 (.compute (.symbol legible (.compute (.compute .nil))))
      exact ⟨_, rfl, address.append declares_pushD⟩
  | direct name => exact ⟨_, rfl, (Declares.symbol legible (.compute .nil)).append declares_pushD⟩

theorem declares_popBlock {unit : String} {segment : Segment} {index : Nat}
    (symbol : isSymbol unit.toList = true) (cell : HasCell segment index)
    (writable : segment ≠ .constant) :
    ∃ block, popBlock? unit segment index = some block ∧ Declares block [] := by
  obtain ⟨access, found, legible, constant⟩ := access_legible symbol cell
  unfold popBlock?
  rw [found]
  have scratch := isSymbol_register "R13" (by simp)
  cases access with
  | constant => exact absurd (constant rfl) writable
  | indirect register =>
      have address : Declares [.number index, setD .a, .symbol register, setD (.xPlusY .memory),
          .symbol "R13", setM .d] [] :=
        .number cell.1 (.compute (.symbol legible (.compute (.symbol scratch (.compute .nil)))))
      have stored : Declares [.symbol "R13", setA .m, setM .d] [] :=
        .symbol scratch (.compute (.compute .nil))
      exact ⟨_, rfl, (address.append declares_popD).append stored⟩
  | direct name => exact ⟨_, rfl, declares_popD.append (.symbol legible (.compute .nil))⟩

/-! ## Instructions -/

/-- **Lowerable instructions** can be lowered in every unit. -/
def IsLowerable : Instruction → Prop
  | .push segment index => HasCell segment index
  | .pop segment index => HasCell segment index ∧ segment ≠ .constant
  | .operate _ | .return_ => True
  | .label name | .goto name | .ifGoto name => ∀ c ∈ name.toList, isSymbolCharacter c = true
  | .call name argumentCount =>
    isSymbol name.toList = true ∧ frameSize + argumentCount ≤ largestConstant
  | .function name _ => isSymbol name.toList = true

/-- A label of the source, as it is qualified. -/
def scopedLabel (unit function label : String) : String :=
  (if function = "" then unit else function) ++ "$" ++ label

/-- The labels that the block of an instruction declares. -/
def Lowering.declared (lowering : Lowering) : Instruction → List String
  | .operate operation =>
    if isComparison operation then
      [comparisonFails lowering.comparisons, comparisonEnds lowering.comparisons]
    else []
  | .label name => [scopedLabel lowering.unit lowering.function name]
  | .call _ _ => [returnAddress lowering.calls]
  | .function name _ => [name]
  | _ => []

/-- Whatever stands in front of the first function, or in it, has a name that labels can be put to. -/
structure Lowering.IsNamed (lowering : Lowering) : Prop where
  unit : isSymbol lowering.unit.toList = true
  function : lowering.function = "" ∨ isSymbol lowering.function.toList = true

theorem Lowering.IsNamed.scopedLabel {lowering : Lowering} (named : lowering.IsNamed) {label : String}
    (characters : ∀ c ∈ label.toList, isSymbolCharacter c = true) :
    isSymbol (scopedLabel lowering.unit lowering.function label).toList = true := by
  refine isSymbol_joined "$" ?_ (by decide) characters
  split
  · exact named.unit
  · rename_i inside
    exact named.function.resolve_left inside

/-- **Blocks.**  A lowerable instruction has a block, which declares the labels that it should. -/
theorem Lowering.declares_block {lowering : Lowering} {instruction : Instruction}
    (named : lowering.IsNamed) (lowerable : IsLowerable instruction) :
    ∃ block, lowering.block? instruction = some block ∧
      Declares block (lowering.declared instruction) := by
  cases instruction with
  | push segment index => exact declares_pushBlock named.unit lowerable
  | pop segment index => exact declares_popBlock named.unit lowerable.1 lowerable.2
  | operate operation =>
      refine ⟨_, rfl, ?_⟩
      cases operation with
      | add | sub | and | or => exact declares_binaryBlock _
      | neg | not => exact declares_unaryBlock _
      | eq | gt | lt => exact declares_comparisonBlock _ _
  | label name => exact ⟨_, rfl, .label (named.scopedLabel lowerable) .nil⟩
  | goto name => exact ⟨_, rfl, .symbol (named.scopedLabel lowerable) (.compute .nil)⟩
  | ifGoto name =>
      exact ⟨_, rfl, declares_popD.append (.symbol (named.scopedLabel lowerable) (.compute .nil))⟩
  | call name argumentCount =>
      obtain ⟨symbol, small⟩ := lowerable
      rw [block?, if_pos small]
      exact ⟨_, rfl, declares_callBlock lowering.calls symbol small⟩
  | function name localCount => exact ⟨_, rfl, declares_functionBlock localCount lowerable⟩
  | return_ => exact ⟨_, rfl, declares_returnBlock⟩

end JackToolchain.Hack
