import JackToolchain.Program
import JackToolchain.Proofs.Hack.Acceptance
import JackToolchain.Proofs.Hack.Execution
import JackToolchain.Proofs.Hack.LabelDeclarations
import JackToolchain.Proofs.Hack.SeenLines
import JackToolchain.Proofs.Vm.WrittenForm
import Mathlib.Data.List.Nodup
import Mathlib.Data.List.Perm.Basic

/-!
# Linking

The assembly of lowerable units.

## Main Definitions

* `sourceLabels` — the labels that code declares, as they are qualified.
* `generated` — the labels of comparisons and calls.
* `Lowering.Sound` — the lines so far are legible, and declare certain labels and those of the comparisons
  and calls so far.

## Main Statements

* `Lowering.add_sound`, `Lowering.addAll_sound` — soundness is kept by one instruction and by code.
* `lowerUnits_sound` — lowerable units are lowered without a failure.
* `opening_sound` — so is what stands in front of them.
* `nodup_generated` — the labels of comparisons and calls are different.
-/

namespace JackToolchain.Hack

open Text Vm

/-! ## Labels of the source -/

/-- The labels that code declares in a unit, in or behind a function. -/
def sourceLabels (unit : String) : String → List Instruction → List String
  | _, [] => []
  | _, .function name _ :: rest => name :: sourceLabels unit name rest
  | function, .label name :: rest => scopedLabel unit function name :: sourceLabels unit function rest
  | function, _ :: rest => sourceLabels unit function rest

/-- The labels of comparisons and calls. -/
def generated (comparisons calls : Nat) : List String :=
  (List.range comparisons).flatMap (fun n => [comparisonFails n, comparisonEnds n]) ++
    (List.range calls).map returnAddress

/-! ## Comments -/

/-- A text without ends of lines. -/
def IsOneLine (text : String) : Prop := '\n' ∉ text.toList ∧ '\r' ∉ text.toList

instance (text : String) : Decidable (IsOneLine text) := inferInstanceAs (Decidable (_ ∧ _))

/-- A comment whose name has the characters of symbols stays on its line. -/
theorem isOneLine_of_characters {instruction : Instruction}
    (characters : ∀ name ∈ instruction.name?, ∀ c ∈ name.toList, isSymbolCharacter c = true) :
    IsOneLine instruction.text := by
  have none (c : Char) (other : isSymbolCharacter c = false) :
      ∀ name ∈ instruction.name?, c ∉ name.toList := fun name named inside =>
    Bool.noConfusion (other.symm.trans (characters name named c inside))
  exact ⟨Instruction.not_mem_text (by decide) (by decide) (none _ (by decide)),
    Instruction.not_mem_text (by decide) (by decide) (none _ (by decide))⟩

/-- The comment of a lowerable instruction stays on its line. -/
theorem isOneLine_text {instruction : Instruction} (lowerable : IsLowerable instruction) :
    IsOneLine instruction.text := by
  refine isOneLine_of_characters ?_
  cases instruction with
  | push | pop | operate | return_ => nofun
  | label name | goto name | ifGoto name =>
      rintro _ ⟨⟩
      exact lowerable
  | call name argumentCount =>
      rintro _ ⟨⟩
      exact isSymbolCharacter_of_isSymbol lowerable.1
  | function name localCount =>
      rintro _ ⟨⟩
      exact isSymbolCharacter_of_isSymbol lowerable

/-! ## Soundness -/

namespace Lowering

/-- **Sound assembly.** -/
structure Sound (lowering : Lowering) (declared : List String) : Prop where
  legible : ∀ line ∈ lowering.lines.toList, line.IsLegible
  labels : (declarations lowering.lines.toList).Perm
    (declared ++ generated lowering.comparisons lowering.calls)

/-- The labels of the source that an instruction declares. -/
def declaredBySource (lowering : Lowering) : Instruction → List String
  | .label name => [scopedLabel lowering.unit lowering.function name]
  | .function name _ => [name]
  | _ => []

/-- The function behind an instruction. -/
def functionBehind (function : String) : Instruction → String
  | .function name _ => name
  | _ => function

variable {lowering : Lowering} {declared : List String} {instruction : Instruction}

theorem sourceLabels_cons (lowering : Lowering) (unit function : String) (instruction : Instruction)
    (rest : List Instruction) :
    sourceLabels unit function (instruction :: rest) =
      declaredBySource { lowering with unit, function } instruction ++
        sourceLabels unit (functionBehind function instruction) rest := by
  cases instruction <;> rfl

/-- One comparison more, or one call more, gives its labels besides. -/
theorem perm_generated (lowering : Lowering) (instruction : Instruction) :
    (lowering.declaredBySource instruction ++
      generated (lowering.pass instruction).comparisons (lowering.pass instruction).calls).Perm
      (generated lowering.comparisons lowering.calls ++ lowering.declared instruction) := by
  cases instruction with
  | push | pop | goto | ifGoto | return_ => exact .of_eq (List.append_nil _).symm
  | label | function => exact List.perm_append_comm
  | call name argumentCount =>
      show (generated lowering.comparisons (lowering.calls + 1)).Perm _
      rw [generated, List.range_succ, List.map_append, ← List.append_assoc]
      rfl
  | operate operation =>
      rw [pass, Lowering.declared]
      split
      · show (generated (lowering.comparisons + 1) lowering.calls).Perm _
        rw [generated, generated, List.range_succ, List.flatMap_append, List.flatMap_singleton,
          List.append_assoc, List.append_assoc]
        exact .append_left _ List.perm_append_comm
      · exact .of_eq (List.append_nil _).symm

/-- The lines do not matter for numbers and names. -/
theorem fields_behind (lowering : Lowering) (comment : String) (block : List Line)
    (instruction : Instruction) :
    let after := ((lowering.note comment).emit block).pass instruction
    after.comparisons = (lowering.pass instruction).comparisons ∧
      after.calls = (lowering.pass instruction).calls ∧ after.unit = lowering.unit ∧
      after.function = functionBehind lowering.function instruction := by
  obtain ⟨annotate, lines, comparisons, calls, unit, function⟩ := lowering
  cases instruction with
  | operate operation =>
      cases annotate <;> cases operation <;> exact ⟨rfl, rfl, rfl, rfl⟩
  | push | pop | label | goto | ifGoto | call | function | return_ =>
      cases annotate <;> exact ⟨rfl, rfl, rfl, rfl⟩

/-- **One instruction** keeps the assembly sound. -/
theorem add_sound (sound : lowering.Sound declared) (named : lowering.IsNamed)
    (lowerable : IsLowerable instruction) (position : Nat) :
    ∃ after, lowering.add position instruction = .ok after ∧
      after.Sound (declared ++ lowering.declaredBySource instruction) ∧
      after.unit = lowering.unit ∧
      after.function = functionBehind lowering.function instruction := by
  obtain ⟨block, found, declares⟩ := declares_block named lowerable
  have noted : Declares (lowering.notes instruction) [] := by
    unfold notes
    split
    · exact .cons (isOneLine_text lowerable) rfl .nil
    · exact .nil
  have added := noted.append declares
  obtain ⟨comparisons, calls, unit, function⟩ :=
    lowering.fields_behind instruction.text block instruction
  refine ⟨_, by rw [add, found], ⟨?_, ?_⟩, unit, function⟩
  · rw [pass_lines, emit_lines, note_lines, List.append_assoc]
    exact List.forall_mem_append.mpr ⟨sound.legible, added.legible⟩
  · rw [comparisons, calls, pass_lines, emit_lines, note_lines, List.append_assoc, declarations,
      List.filterMap_append]
    calc
      _ = declarations lowering.lines.toList ++ lowering.declared instruction :=
        congrArg _ added.declared
      List.Perm _ (declared ++ generated lowering.comparisons lowering.calls ++
          lowering.declared instruction) := sound.labels.append_right _
      List.Perm _ _ := by
        rw [List.append_assoc, List.append_assoc]
        exact (lowering.perm_generated instruction).symm.append_left declared

/-- Behind an instruction there is still a name that labels can be put to. -/
theorem IsNamed.behind {after : Lowering} (named : lowering.IsNamed)
    (lowerable : IsLowerable instruction) (unit : after.unit = lowering.unit)
    (function : after.function = functionBehind lowering.function instruction) : after.IsNamed where
  unit := by rw [unit]; exact named.unit
  function := by
    rw [function]
    cases instruction with
    | function name localCount => exact .inr lowerable
    | push | pop | operate | label | goto | ifGoto | call | return_ => exact named.function

/-- **Code** keeps the assembly sound. -/
theorem addAll_sound {code : List Instruction} (sound : lowering.Sound declared)
    (named : lowering.IsNamed) (lowerable : ∀ i ∈ code, IsLowerable i) (position : Nat) :
    ∃ after, lowering.addAll position code = .ok after ∧
      after.Sound (declared ++ sourceLabels lowering.unit lowering.function code) := by
  induction code generalizing lowering declared position with
  | nil =>
      rw [sourceLabels, List.append_nil]
      exact ⟨lowering, rfl, sound⟩
  | cons instruction rest ih =>
      obtain ⟨here, others⟩ := List.forall_mem_cons.mp lowerable
      obtain ⟨between, added, soundBetween, unit, function⟩ := add_sound sound named here position
      obtain ⟨after, addedRest, soundAfter⟩ :=
        ih soundBetween (named.behind here unit function) others (position + 1)
      refine ⟨after, ?_, ?_⟩
      · rw [addAll, added]
        exact addedRest
      · rw [unit, function, List.append_assoc] at soundAfter
        rw [sourceLabels_cons lowering]
        exact soundAfter

/-- **A unit** keeps the assembly sound. -/
theorem addUnit_sound {code : List Instruction} {name : String} (sound : lowering.Sound declared)
    (symbol : isSymbol name.toList = true) (lowerable : ∀ i ∈ code, IsLowerable i) :
    ∃ after, lowering.addUnit name code = .ok after ∧
      after.Sound (declared ++ sourceLabels name "" code) := by
  have begun : { lowering with unit := name, function := "" }.Sound declared :=
    ⟨sound.legible, sound.labels⟩
  exact addAll_sound begun ⟨symbol, .inl rfl⟩ lowerable 1

end Lowering

/-! ## Programs -/

/-- **Lowerable units** are lowered without a failure. -/
theorem lowerUnits_sound {units : List CompiledUnit} {lowering : Lowering} {declared : List String}
    (sound : lowering.Sound declared)
    (lowerable : ∀ unit ∈ units, isSymbol unit.name.toList = true ∧
      ∀ i ∈ unit.code, IsLowerable i) :
    ∃ after, lowerUnits lowering units = (after, []) ∧
      after.Sound (declared ++ units.flatMap fun unit => sourceLabels unit.name "" unit.code) := by
  induction units generalizing lowering declared with
  | nil => exact ⟨lowering, rfl, by rwa [List.flatMap_nil, List.append_nil]⟩
  | cons unit rest ih =>
      obtain ⟨⟨symbol, here⟩, others⟩ := List.forall_mem_cons.mp lowerable
      obtain ⟨between, added, soundBetween⟩ := Lowering.addUnit_sound sound symbol here
      obtain ⟨after, lowered, soundAfter⟩ := ih soundBetween others
      refine ⟨after, ?_, ?_⟩
      · rw [lowerUnits, added]
        exact lowered
      · rwa [List.flatMap_cons, ← List.append_assoc]

/-- What sets up the stack. -/
def startBlock (calls base : Nat) (entry : String) : List Line :=
  [Line.number base, .setD .a, .symbol "SP", .setM .d] ++ callBlock calls entry 0

theorem declares_startBlock (calls : Nat) {base : Nat} {entry : String}
    (small : base ≤ largestConstant) (symbol : isSymbol entry.toList = true) :
    Declares (startBlock calls base entry) [returnAddress calls] := by
  have loaded : Declares [.number base, .setD .a, .symbol "SP", .setM .d] [] :=
    .number small (.compute (.symbol (isSymbol_register "SP" (by simp)) (.compute .nil)))
  exact loaded.append (declares_callBlock calls symbol (by decide))

theorem bootstrap_lines (lowering : Lowering) (base : Nat) (entry : String) :
    (lowering.bootstrap base entry).lines.toList =
      lowering.lines.toList ++ ((if lowering.annotate then [.comment "bootstrap"] else []) ++
        startBlock lowering.calls base entry) := by
  unfold Lowering.bootstrap
  dsimp only
  rw [Lowering.emit_lines, Lowering.note_lines, List.append_assoc, startBlock]

theorem emit_comparisons (lowering : Lowering) (lines : List Line) :
    (lowering.emit lines).comparisons = lowering.comparisons := rfl

theorem note_comparisons (lowering : Lowering) (comment : String) :
    (lowering.note comment).comparisons = lowering.comparisons := by
  unfold Lowering.note
  split <;> rfl

theorem bootstrap_comparisons (lowering : Lowering) (base : Nat) (entry : String) :
    (lowering.bootstrap base entry).comparisons = lowering.comparisons := by
  unfold Lowering.bootstrap
  dsimp only
  rw [emit_comparisons, note_comparisons]

theorem bootstrap_calls (lowering : Lowering) (base : Nat) (entry : String) :
    (lowering.bootstrap base entry).calls = lowering.calls + 1 := rfl

/-- **The opening** of a program is sound if the stack begins at a constant and the entry is a symbol. -/
theorem opening_sound (program : Program) {settings : Settings}
    (base : settings.stackBase ≤ largestConstant)
    (entry : isSymbol settings.library.entry.toList = true) :
    (program.opening settings).Sound [] := by
  unfold Program.opening
  split
  · have noted : Declares (if settings.annotate then [.comment "bootstrap"] else []) [] := by
      split
      · exact .cons (by decide : IsOneLine "bootstrap") rfl .nil
      · exact .nil
    have started := noted.append (declares_startBlock 0 base entry)
    refine ⟨?_, ?_⟩
    · rw [bootstrap_lines]
      exact started.legible
    · rw [bootstrap_lines, bootstrap_comparisons, bootstrap_calls]
      exact .of_eq started.declared
  · exact ⟨List.forall_mem_nil _, .nil⟩

/-- The labels of comparisons and calls are different. -/
theorem nodup_generated (comparisons calls : Nat) : (generated comparisons calls).Nodup := by
  have fails_ends (n m : Nat) : comparisonFails n ≠ comparisonEnds m :=
    numbered_ne "CMP_FALSE" "CMP_END" n m (by decide) (by decide) (by decide)
  have fails_returns (n m : Nat) : comparisonFails n ≠ returnAddress m :=
    numbered_ne "CMP_FALSE" "RET_ADDRESS" n m (by decide) (by decide) (by decide)
  have ends_returns (n m : Nat) : comparisonEnds n ≠ returnAddress m :=
    numbered_ne "CMP_END" "RET_ADDRESS" n m (by decide) (by decide) (by decide)
  -- Within a comparison, among comparisons, among calls, and between comparisons and calls.
  refine List.nodup_append.mpr ⟨List.nodup_flatMap.mpr ⟨fun n _ => ?_, ?_⟩, ?_, ?_⟩
  · refine List.nodup_cons.mpr ⟨?_, List.nodup_singleton _⟩
    rw [List.mem_singleton]
    exact fails_ends n n
  · refine List.nodup_range.imp fun {n m} different => ?_
    intro name inFirst inSecond
    simp only [List.mem_cons, List.not_mem_nil, or_false] at inFirst inSecond
    rcases inFirst with rfl | rfl <;> rcases inSecond with same | same
    · exact different (numbered_injective "CMP_FALSE" same)
    · exact fails_ends n m same
    · exact fails_ends m n same.symm
    · exact different (numbered_injective "CMP_END" same)
  · exact List.nodup_range.map fun n m same => numbered_injective "RET_ADDRESS" same
  · intro name inComparisons other inCalls
    obtain ⟨n, -, inPair⟩ := List.mem_flatMap.mp inComparisons
    obtain ⟨m, -, rfl⟩ := List.mem_map.mp inCalls
    simp only [List.mem_cons, List.not_mem_nil, or_false] at inPair
    rcases inPair with rfl | rfl
    · exact fails_returns n m
    · exact ends_returns n m

/-! ## Assembling -/

/-- A legible line is sound. -/
theorem isSound_source {line : Line} (legible : line.IsLegible) {content : SourceLine}
    (source : line.source? = some content) : content.IsSound := by
  cases line with
  | comment text => exact absurd source.symm (Option.some_ne_none _)
  | label name =>
      obtain rfl := Option.some.inj source
      exact legible
  | address target =>
      obtain rfl := Option.some.inj source
      cases target with
      | number value =>
          have read : natural? largestConstant (toString value).toList = some value :=
            natural?_toString legible
          show (SourceLine.address (toString value).toList).IsSound
          rw [SourceLine.IsSound, head?_numeral, if_pos rfl, read]
          rfl
      | symbol name =>
          show (SourceLine.address name.toList).IsSound
          rw [SourceLine.IsSound, not_isDigit_of_isSymbol legible, if_neg Bool.false_ne_true]
          exact legible
  | compute instruction =>
      obtain rfl := Option.some.inj source
      exact ⟨instruction, instruction.read_text⟩

/-- The labels of the text are those of the lines. -/
theorem declaredNames_source (lines : List Line) :
    declaredNames (lines.filterMap Line.source?) = declarations lines := by
  unfold declaredNames declarations
  rw [List.filterMap_filterMap]
  congr 1
  funext line
  cases line with
  | comment | address | compute => rfl
  | label name => exact congrArg some String.ofList_toList

/-- **Legible lines assemble** if their labels are different and not predefined, and there are neither too
many instructions nor too many free names. -/
theorem assemble_text_accepts {lines : List Line} (legible : ∀ line ∈ lines, line.IsLegible)
    (nodup : (declarations lines).Nodup)
    (fresh : ∀ name ∈ declarations lines, predefined[name]? = none)
    (short : (instructionLines (unlines (lines.map Line.text))).length ≤ largestProgram)
    (few : (freeNames ((sourceLines (unlines (lines.map Line.text))).map (·.2))).card ≤
      screen - firstVariable) :
    ∃ assembled, assemble (unlines (lines.map Line.text)) = .ok assembled := by
  have seen := sourceLines_text fun line member => (legible line member).isReadable
  refine assemble_accepts ?_ ?_ ?_ short few
  · intro numbered member
    have inLines : numbered.2 ∈ lines.filterMap Line.source? := by
      rw [← seen]
      exact List.mem_map_of_mem member
    obtain ⟨line, inText, source⟩ := List.mem_filterMap.mp inLines
    exact isSound_source (legible line inText) source
  · rwa [seen, declaredNames_source]
  · rwa [seen, declaredNames_source]

/-- **Few lines** hold neither too many instructions nor too many free names. -/
theorem within_limits_of_few_lines {lines : List Line} (legible : ∀ line ∈ lines, line.IsLegible)
    (few : lines.length ≤ screen - firstVariable) :
    (instructionLines (unlines (lines.map Line.text))).length ≤ largestProgram ∧
      (freeNames ((sourceLines (unlines (lines.map Line.text))).map (·.2))).card ≤
        screen - firstVariable := by
  have seen : ((sourceLines (unlines (lines.map Line.text))).map (·.2)).length ≤
      screen - firstVariable := by
    rw [sourceLines_text fun line member => (legible line member).isReadable]
    exact (List.length_filterMap_le _ lines).trans few
  have bounds : screen - firstVariable ≤ largestProgram := by decide
  exact ⟨(List.length_filter_le _ _).trans (seen.trans bounds), (card_freeNames_le _).trans seen⟩

/-- A name that stands in no entry of the list is not predefined. -/
theorem predefined_eq_none {name : String} (absent : ∀ known ∈ predefinedList, known.1 ≠ name) :
    predefined[name]? = none := by
  have unlisted : predefined.contains name = false := by
    rw [predefined, Std.TreeMap.contains_ofList, ← Bool.not_eq_true, List.contains_iff_mem]
    intro member
    obtain ⟨known, inList, same⟩ := List.mem_map.mp member
    exact absent known inList same
  rw [Std.TreeMap.contains_eq_isSome_getElem?] at unlisted
  exact Option.isNone_iff_eq_none.mp (Option.isSome_eq_false_iff.mp unlisted)

/-- A generated label is one of three words with a number behind it. -/
theorem eq_numbered_of_generated {comparisons calls : Nat} {name : String}
    (member : name ∈ generated comparisons calls) :
    ∃ word ∈ ["CMP_FALSE", "CMP_END", "RET_ADDRESS"], ∃ number : Nat,
      name.toList = word.toList ++ (toString number).toList := by
  rcases List.mem_append.mp member with inComparisons | inCalls
  · obtain ⟨n, -, inPair⟩ := List.mem_flatMap.mp inComparisons
    simp only [List.mem_cons, List.not_mem_nil, or_false] at inPair
    rcases inPair with rfl | rfl
    · exact ⟨"CMP_FALSE", by simp, n, String.toList_append⟩
    · exact ⟨"CMP_END", by simp, n, String.toList_append⟩
  · obtain ⟨n, -, rfl⟩ := List.mem_map.mp inCalls
    exact ⟨"RET_ADDRESS", by simp, n, String.toList_append⟩

/-- Generated labels are not predefined… -/
theorem generated_fresh {comparisons calls : Nat} {name : String}
    (member : name ∈ generated comparisons calls) : predefined[name]? = none := by
  obtain ⟨word, inWords, number, spelled⟩ := eq_numbered_of_generated member
  refine predefined_eq_none fun known inList same => ?_
  have long : ∀ word ∈ ["CMP_FALSE", "CMP_END", "RET_ADDRESS"], 2 ≤ word.toList.length ∧
      ∀ known ∈ predefinedList, known.1.toList.take 2 ≠ word.toList.take 2 := by decide
  obtain ⟨enough, different⟩ := long word inWords
  refine different known inList ?_
  rw [same, spelled, List.take_append_of_le_length enough]

/-- …and they hold no dot. -/
theorem no_dot_generated {comparisons calls : Nat} {name : String}
    (member : name ∈ generated comparisons calls) : '.' ∉ name.toList := by
  obtain ⟨word, inWords, number, spelled⟩ := eq_numbered_of_generated member
  have noDot : ∀ word ∈ ["CMP_FALSE", "CMP_END", "RET_ADDRESS"], '.' ∉ word.toList := by decide
  rw [spelled, List.mem_append, not_or]
  exact ⟨noDot word inWords, fun inNumber => absurd (isDigit_of_mem_numeral inNumber) (by decide)⟩

/-- No predefined name holds a dot. -/
theorem predefined_eq_none_of_dot {name : String} (dot : '.' ∈ name.toList) :
    predefined[name]? = none := by
  have noDot : ∀ known ∈ predefinedList, '.' ∉ known.1.toList := by decide
  exact predefined_eq_none fun known inList same => noDot known inList (same ▸ dot)

/-- **Labels that hold dots** are different from generated ones, and none of them all is predefined. -/
theorem fresh_of_perm {names declared : List String} {comparisons calls : Nat}
    (perm : names.Perm (declared ++ generated comparisons calls)) (nodup : declared.Nodup)
    (dots : ∀ name ∈ declared, '.' ∈ name.toList) :
    names.Nodup ∧ ∀ name ∈ names, predefined[name]? = none := by
  constructor
  · rw [perm.nodup_iff, List.nodup_append]
    refine ⟨nodup, nodup_generated _ _, ?_⟩
    rintro name inSource _ inGenerated rfl
    exact no_dot_generated inGenerated (dots name inSource)
  · intro name member
    rcases List.mem_append.mp (perm.mem_iff.mp member) with inSource | inGenerated
    · exact predefined_eq_none_of_dot (dots name inSource)
    · exact generated_fresh inGenerated

end JackToolchain.Hack
