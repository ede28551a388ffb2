import JackToolchain.Proofs.Program.DistinctLabels

/-!
# Lowered lines

Where the lines of the assembly of units come from.

## Main Definitions

* `Line.isCode` — whether a line is no comment.
* `Lowering.IsWithin` — what is known about lowering inside a unit.
* `Lowering.HasLines` — every line so far is as expected.
* `CompiledUnit.IsSpelled` — the names in a unit are words.

## Main Statements

* `Lowering.all_isCode_block` — blocks have no comments.
* `Lowering.HasLines.lowerUnits` — what holds of the comments and blocks of all instructions holds of all
  lines.
* `comments_run` — comments repeat instructions, but for the one that stands first.
* `readable_run` — if names are words, all lines are readable.

## Design Notes

Units are lowered whether or not those in front of them were refused.  So what is shown of lines is shown
of what has been reached.
-/

namespace JackToolchain

open Hack Vm Text

namespace Hack

/-! ## Lines without comments -/

/-- Whether a line is no comment. -/
def Line.isCode : Line → Bool
  | .comment _ => false
  | .label _ | .address _ | .compute _ => true

theorem all_isCode_pushBlock {unit : String} {segment : Segment} {index : Nat} {block : List Line}
    (found : pushBlock? unit segment index = some block) : block.all Line.isCode = true := by
  unfold pushBlock? at found
  split at found
  · split_ifs at found
    obtain rfl := Option.some.inj found
    rfl
  · obtain rfl := Option.some.inj found
    rfl
  · obtain rfl := Option.some.inj found
    rfl
  · exact absurd found nofun

theorem all_isCode_popBlock {unit : String} {segment : Segment} {index : Nat} {block : List Line}
    (found : popBlock? unit segment index = some block) : block.all Line.isCode = true := by
  unfold popBlock? at found
  split at found
  · exact absurd found nofun
  · obtain rfl := Option.some.inj found
    rfl
  · obtain rfl := Option.some.inj found
    rfl
  · exact absurd found nofun

theorem all_isCode_functionBlock (name : String) (localCount : Nat) :
    (functionBlock name localCount).all Line.isCode = true := by
  have cleared : (List.replicate localCount clearLocal).flatten.all Line.isCode = true := by
    induction localCount with
    | zero => rfl
    | succ count ih =>
        rw [List.replicate_succ, List.flatten_cons, List.all_append, ih]
        rfl
  exact cleared

theorem all_isCode_startBlock (calls base : Nat) (entry : String) :
    (startBlock calls base entry).all Line.isCode = true := rfl

namespace Lowering

variable {lowering : Lowering} {instruction : Instruction}

/-- **Blocks** have no comments. -/
theorem all_isCode_block {block : List Line} (found : lowering.block? instruction = some block) :
    block.all Line.isCode = true := by
  cases instruction with
  | push => exact all_isCode_pushBlock found
  | pop => exact all_isCode_popBlock found
  | operate operation =>
      obtain rfl := Option.some.inj found
      cases operation <;> rfl
  | label | goto | ifGoto | return_ =>
      obtain rfl := Option.some.inj found
      rfl
  | call name argumentCount =>
      simp only [block?] at found
      split_ifs at found
      obtain rfl := Option.some.inj found
      rfl
  | function name localCount =>
      obtain rfl := Option.some.inj found
      exact all_isCode_functionBlock name localCount

end Lowering

end Hack

/-! ## Lines of a run -/

namespace Hack.Lowering

/-- **Inside a unit.**  The function is one of the unit, once there is one. -/
structure IsWithin (lowering : Lowering) (unit : CompiledUnit) : Prop where
  name : lowering.unit = unit.name
  function : lowering.function = "" ∨ lowering.function ∈ functionNames unit.code

/-- Every line so far is as expected. -/
def HasLines (lowering : Lowering) (expected : Line → Prop) : Prop :=
  ∀ line ∈ lowering.lines.toList, expected line

/-- What is expected of the comment and of the block of an instruction inside a unit. -/
structure Provides (unit : CompiledUnit) (expected : Line → Prop) : Prop where
  comment : ∀ i ∈ unit.code, expected (.comment i.text)
  block : ∀ {lowering : Lowering} {block : List Line}, lowering.IsWithin unit → ∀ i ∈ unit.code,
    lowering.block? i = some block → ∀ line ∈ block, expected line

variable {lowering after : Lowering} {unit : CompiledUnit} {expected : Line → Prop}

/-- Behind an instruction of the unit, lowering is still inside it. -/
theorem IsWithin.add {instruction : Instruction} {position : Nat} (within : lowering.IsWithin unit)
    (member : instruction ∈ unit.code)
    (added : lowering.add position instruction = .ok after) : after.IsWithin unit := by
  unfold Lowering.add at added
  split at added
  case h_2 => exact absurd added nofun
  case h_1 block found =>
    obtain rfl := Except.ok.inj added
    obtain ⟨-, -, sameUnit, function⟩ := lowering.fields_behind instruction.text block instruction
    refine ⟨sameUnit.trans within.name, ?_⟩
    rw [function]
    cases instruction with
    | function name localCount => exact .inr (List.mem_filterMap.mpr ⟨_, member, rfl⟩)
    | push | pop | operate | label | goto | ifGoto | call | return_ => exact within.function

namespace HasLines

theorem emit (lines : lowering.HasLines expected) {block : List Line}
    (more : ∀ line ∈ block, expected line) : (lowering.emit block).HasLines expected := by
  unfold HasLines
  rw [emit_lines]
  exact List.forall_mem_append.mpr ⟨lines, more⟩

theorem note (lines : lowering.HasLines expected) {comment : String}
    (more : expected (.comment comment)) : (lowering.note comment).HasLines expected := by
  unfold Lowering.note
  split
  · exact lines.emit (List.forall_mem_singleton.mpr more)
  · exact lines

/-- An instruction leaves its comment and its block, or at least its comment. -/
theorem add (lines : lowering.HasLines expected) (within : lowering.IsWithin unit)
    (provides : Provides unit expected) {instruction : Instruction}
    (member : instruction ∈ unit.code) (position : Nat) :
    (progress (lowering.add position instruction)).HasLines expected := by
  have noted := lines.note (provides.comment instruction member)
  unfold Lowering.add
  split
  · rename_i block found
    have emitted := noted.emit (provides.block within instruction member found)
    unfold HasLines at emitted ⊢
    rw [progress, pass_lines]
    exact emitted
  · exact noted

/-- Code leaves the comments and blocks of its instructions. -/
theorem addAll {code : List Instruction} (lines : lowering.HasLines expected)
    (within : lowering.IsWithin unit) (provides : Provides unit expected) (part : code ⊆ unit.code)
    (position : Nat) : (progress (lowering.addAll position code)).HasLines expected := by
  induction code generalizing lowering position with
  | nil => exact lines
  | cons instruction rest ih =>
      obtain ⟨member, others⟩ := List.cons_subset.mp part
      have added := lines.add within provides member position
      rw [Lowering.addAll]
      cases result : lowering.add position instruction with
      | ok between =>
          rw [result] at added
          exact ih added (within.add member result) others (position + 1)
      | error refusal =>
          rw [result] at added
          exact added

/-- **Units** leave the comments and blocks of their instructions, whether or not they are refused. -/
theorem lowerUnits {units : List CompiledUnit} (lines : lowering.HasLines expected)
    (provides : ∀ unit ∈ units, Provides unit expected) :
    (lowerUnits lowering units).1.HasLines expected := by
  induction units generalizing lowering with
  | nil => exact lines
  | cons unit rest ih =>
      obtain ⟨here, others⟩ := List.forall_mem_cons.mp provides
      have begun : { lowering with unit := unit.name, function := "" }.HasLines expected := lines
      have added := begun.addAll ⟨rfl, .inl rfl⟩ here (List.Subset.refl _) 1
      rw [JackToolchain.lowerUnits, Lowering.addUnit]
      cases result : { lowering with unit := unit.name, function := "" }.addAll 1 unit.code with
      | ok between =>
          rw [result] at added
          exact ih added others
      | error refusal =>
          rw [result] at added
          exact ih added others

/-- In front of the units there is what sets up the stack, if it is wanted. -/
theorem start (annotate : Bool) {setUp : Option (Nat × String)}
    (comment : expected (.comment "bootstrap"))
    (block : ∀ call ∈ setUp, ∀ line ∈ startBlock 0 call.1 call.2, expected line) :
    (Lowering.start annotate setUp).HasLines expected := by
  have empty : ({ annotate } : Lowering).HasLines expected := List.forall_mem_nil _
  cases setUp with
  | none => exact empty
  | some call =>
      unfold HasLines
      rw [Lowering.start, bootstrap_lines]
      refine List.forall_mem_append.mpr ⟨empty, List.forall_mem_append.mpr ⟨?_, block call rfl⟩⟩
      split
      · exact List.forall_mem_singleton.mpr comment
      · exact List.forall_mem_nil _

end HasLines

end Hack.Lowering

/-- **Comments** repeat instructions, but for the one that stands first. -/
theorem comments_run (annotate : Bool) (setUp : Option (Nat × String)) {units : List CompiledUnit}
    (expected : String → Prop) (first : expected "bootstrap")
    (each : ∀ unit ∈ units, ∀ i ∈ unit.code, expected i.text) {content : String}
    (member : .comment content ∈ (Lowering.run annotate setUp units).lines.toList) :
    expected content := by
  have code {block : List Line} (isCode : block.all Line.isCode = true) :
      ∀ line ∈ block, ∀ content, line = .comment content → expected content := by
    rintro _ inBlock content rfl
    exact Bool.noConfusion (List.all_eq_true.mp isCode _ inBlock)
  have lines : (Lowering.run annotate setUp units).HasLines
      fun line => ∀ content, line = .comment content → expected content := by
    refine Lowering.HasLines.lowerUnits (.start annotate ?_ fun call _ => code rfl) ?_
    · rintro _ ⟨⟩
      exact first
    · intro unit inUnits
      refine ⟨fun i inCode => ?_, fun _ i _ found => code (Lowering.all_isCode_block found)⟩
      rintro _ ⟨⟩
      exact each unit inUnits i inCode
  exact lines _ member content rfl

/-! ## Readable lines -/

/-- A name that stands behind another, with a dollar sign or a dot between them. -/
theorem isWord_joined {front behind : String} (one : IsWord front) (two : IsWord behind) :
    IsWord (front ++ "$" ++ behind) ∧ IsWord (front ++ "." ++ behind) := by
  have joined (between : Char) (visible : isBlank between = false) (other : between ≠ '/')
      {text : String} (spelled : text.toList = front.toList ++ between :: behind.toList) :
      IsWord text := by
    refine IsSolid.isWord ?_ ?_
    · rw [spelled]
      exact one.isSolid.append two.isSolid visible other
    · rw [spelled]
      exact List.append_ne_nil_of_right_ne_nil _ (List.cons_ne_nil _ _)
  exact ⟨joined '$' (by decide) (by decide) (by simp), joined '.' (by decide) (by decide) (by simp)⟩

/-- Lines without comments are readable, if the names in them are words. -/
theorem isReadable_of_names {block : List Line} (code : block.all Line.isCode = true)
    (declared : ∀ name ∈ declarations block, IsWord name)
    (referred : ∀ name ∈ references block, IsWord name) : ∀ line ∈ block, line.IsReadable := by
  intro line member
  cases line with
  | comment content => exact Bool.noConfusion (List.all_eq_true.mp code _ member)
  | label name => exact declared name (List.mem_filterMap.mpr ⟨_, member, rfl⟩)
  | compute instruction => trivial
  | address target =>
      cases target with
      | number value => trivial
      | symbol name => exact referred name (List.mem_filterMap.mpr ⟨_, member, rfl⟩)

/-- Predefined names are words, and so are generated ones. -/
theorem isWord_of_isPredefined {name : String} (known : IsPredefined name) : IsWord name := by
  have words : ∀ name ∈ predefinedList.map (·.1), IsWord name := by decide
  exact words name known

theorem isWord_of_generatedBy {lowering : Lowering} {instruction : Instruction} {name : String}
    (given : name ∈ lowering.generatedBy instruction) : IsWord name := by
  cases instruction with
  | operate operation =>
      rw [Lowering.generatedBy] at given
      split at given
      · rcases List.mem_pair.mp given with rfl | rfl
        · exact isWord_of_isSymbol (isSymbol_comparisonFails _)
        · exact isWord_of_isSymbol (isSymbol_comparisonEnds _)
      · exact absurd given List.not_mem_nil
  | call =>
      obtain rfl := List.mem_singleton.mp given
      exact isWord_of_isSymbol (isSymbol_returnAddress _)
  | push | pop | label | goto | ifGoto | function | return_ => exact absurd given List.not_mem_nil

/-- What sets up the stack is readable, if the function that it calls has a word for its name. -/
theorem readable_startBlock (calls base : Nat) {entry : String} (isWord : IsWord entry) :
    ∀ line ∈ startBlock calls base entry, line.IsReadable := by
  obtain ⟨others, perm, known⟩ := references_callBlock calls entry 0
  refine isReadable_of_names (all_isCode_startBlock calls base entry) ?_ ?_
  · exact List.forall_mem_singleton.mpr (isWord_of_isSymbol (isSymbol_returnAddress calls))
  · refine List.forall_mem_cons.mpr ⟨by decide, fun name member => ?_⟩
    rcases List.mem_append.mp (perm.mem_iff.mp member) with inOthers | given
    · exact (known name inOthers).elim isWord_of_isPredefined fun same => same ▸ isWord
    · obtain rfl := List.mem_singleton.mp given
      exact isWord_of_isSymbol (isSymbol_returnAddress calls)

/-- The names in the code of a unit are words, and so is its own. -/
structure CompiledUnit.IsSpelled (unit : CompiledUnit) : Prop where
  name : IsWord unit.name
  code : ∀ i ∈ unit.code, ∀ name ∈ i.name?, IsWord name

namespace Hack.Lowering

variable {lowering : Lowering} {unit : CompiledUnit} {instruction : Instruction} {block : List Line}

/-- A label is a word in its scope. -/
theorem IsWithin.isWord_qualify (within : lowering.IsWithin unit) (spelled : unit.IsSpelled)
    {label : String} (isWord : IsWord label) : IsWord (lowering.qualify label) := by
  refine (isWord_joined ?_ isWord).1
  split
  · rw [within.name]
    exact spelled.name
  · rename_i inside
    obtain ⟨i, inCode, named⟩ := List.mem_filterMap.mp (within.function.resolve_left inside)
    refine spelled.code i inCode _ ?_
    cases i with
    | function name localCount => exact named
    | push | pop | operate | label | goto | ifGoto | call | return_ => exact absurd named nofun

/-- What a block refers to are words, if its instruction names words. -/
theorem isWord_of_references (found : lowering.block? instruction = some block)
    (named : ∀ name, NamedBy lowering.unit instruction name → IsWord name) :
    ∀ name ∈ references block, IsWord name := by
  obtain ⟨others, perm, known⟩ := references_block found
  intro name member
  rcases List.mem_append.mp (perm.mem_iff.mp member) with inOthers | given
  · exact (known name inOthers).elim isWord_of_isPredefined (named name)
  · exact isWord_of_generatedBy given

/-- **Blocks** are readable. -/
theorem readable_block (within : lowering.IsWithin unit) (spelled : unit.IsSpelled)
    (inCode : instruction ∈ unit.code) (found : lowering.block? instruction = some block) :
    ∀ line ∈ block, line.IsReadable := by
  have isWord {name : String} (named : instruction.name? = some name) : IsWord name :=
    spelled.code instruction inCode name named
  have qualified {label : String} (named : instruction.name? = some label) :
      IsWord (lowering.qualify label) := within.isWord_qualify spelled (isWord named)
  have static (index : Nat) : IsWord s!"{lowering.unit}.{index}" :=
    within.name ▸ (isWord_joined spelled.name (isWord_numeral index)).2
  refine isReadable_of_names (all_isCode_block found) ?_ ?_
  · rw [declarations_block found, declared_eq]
    refine List.forall_mem_append.mpr ⟨fun name declared => ?_, fun name => isWord_of_generatedBy⟩
    cases instruction with
    | label =>
        obtain rfl := List.mem_singleton.mp declared
        exact qualified rfl
    | function =>
        obtain rfl := List.mem_singleton.mp declared
        exact isWord rfl
    | push | pop | operate | goto | ifGoto | call | return_ => exact absurd declared List.not_mem_nil
  · cases instruction with
    -- the function in which a jump stands is the one that has been reached
    | goto label =>
        obtain rfl := Option.some.inj found
        exact List.forall_mem_singleton.mpr (qualified rfl)
    | ifGoto label =>
        obtain rfl := Option.some.inj found
        exact List.forall_mem_cons.mpr ⟨by decide, List.forall_mem_singleton.mpr (qualified rfl)⟩
    | push segment index | pop segment index =>
        refine isWord_of_references found fun name named => ?_
        cases segment with
        | static_ => exact named ▸ static index
        | constant | local_ | argument | this | that | pointer | temp => exact named.elim
    | call name argumentCount =>
        refine isWord_of_references found fun name named => ?_
        obtain rfl := named
        exact isWord rfl
    | operate | label | function | return_ => exact isWord_of_references found fun _ named => named.elim

end Hack.Lowering

/-- **All lines** are readable, if the names of units, in their code and of the entry are words. -/
theorem readable_run (annotate : Bool) {setUp : Option (Nat × String)} {units : List CompiledUnit}
    (entry : ∀ call ∈ setUp, IsWord call.2) (spelled : ∀ unit ∈ units, unit.IsSpelled) :
    ∀ line ∈ (Lowering.run annotate setUp units).lines.toList, line.IsReadable := by
  refine Lowering.HasLines.lowerUnits (.start annotate ?_ fun call called => ?_) ?_
  · show '\n' ∉ "bootstrap".toList
    decide
  · exact readable_startBlock 0 call.1 (entry call called)
  · intro unit inUnits
    refine ⟨fun i inCode => ?_,
      fun within i inCode => Lowering.readable_block within (spelled unit inUnits) inCode⟩
    refine Instruction.not_mem_text (by decide) (by decide) fun name named inside => ?_
    exact absurd (((spelled unit inUnits).code i inCode name named).solid _ inside) (by decide)

end JackToolchain
