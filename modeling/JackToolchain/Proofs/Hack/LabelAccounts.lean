import JackToolchain.Proofs.Hack.Linking

/-!
# Label accounts

Which labels the assembly of units declares and to which symbols it refers, whatever names the units
hold and whether or not they are lowered to their ends.

## Main Definitions

* `references` — the symbols to which lines refer.
* `Lowering.Accounts` — the lines so far declare certain labels and those of the comparisons and calls so
  far, and refer to each of the latter once and besides only to known symbols.
* `Lowering.labelLines` — the lines of the text that declare labels.

## Main Statements

* `Lowering.references_block` — to what the block of an instruction refers.
* `Lowering.Accounts.add`, `Lowering.Accounts.addAll` — one instruction and code keep the accounts.
* `lowerUnits_accounts` — so do units, also those that are refused in the middle.
* `labelLines_eq` — the lines that declare labels are told from the others by their first character.
-/

namespace JackToolchain.Hack

open Vm Line

/-! ## References -/

/-- The symbol to which a line refers. -/
def Line.reference? : Line → Option String
  | .address (.symbol name) => some name
  | _ => none

/-- The symbols to which lines refer. -/
def references (lines : List Line) : List String := lines.filterMap Line.reference?

@[simp] theorem references_append (front behind : List Line) :
    references (front ++ behind) = references front ++ references behind :=
  List.filterMap_append

@[simp] theorem declarations_append (front behind : List Line) :
    declarations (front ++ behind) = declarations front ++ declarations behind :=
  List.filterMap_append

/-- A symbol that every program knows. -/
def IsPredefined (name : String) : Prop := name ∈ predefinedList.map (·.1)

instance (name : String) : Decidable (IsPredefined name) := inferInstanceAs (Decidable (_ ∈ _))

theorem isPredefined_iff {name : String} : IsPredefined name ↔ predefined[name]?.isSome := by
  rw [← Std.TreeMap.contains_eq_isSome_getElem?, predefined, Std.TreeMap.contains_ofList,
    List.contains_iff_mem]
  exact .rfl

/-- **Symbols that an instruction names itself**: the function that it calls, the label to which it jumps
within a function, its static cell. -/
def NamedBy (unit : String) (instruction : Instruction) (name : String) : Prop :=
  match instruction with
  | .push .static_ index | .pop .static_ index => name = s!"{unit}.{index}"
  | .goto target | .ifGoto target => ∃ function, name = scopedLabel unit function target
  | .call function _ => name = function
  | _ => False

/-! ## Blocks -/

/-- The registers are predefined… -/
theorem isPredefined_register {unit register : String} {segment : Segment} {index : Nat}
    (found : access? unit segment index = some (.indirect register)) : IsPredefined register := by
  have registers : ∀ register ∈ ["LCL", "ARG", "THIS", "THAT"], IsPredefined register := by decide
  refine registers register ?_
  cases segment with
  | constant | static_ => exact absurd (Option.some.inj found) (by rintro ⟨⟩)
  | local_ | argument | this | that =>
      obtain rfl := Access.indirect.inj (Option.some.inj found)
      decide
  | pointer | temp =>
      simp only [access?] at found
      split_ifs at found <;> exact absurd (Option.some.inj found) (by rintro ⟨⟩)

/-- …and so are cells that have a name, unless they are static. -/
theorem known_of_direct {unit name : String} {segment : Segment} {index : Nat}
    (found : access? unit segment index = some (.direct name)) :
    IsPredefined name ∨ segment = .static_ ∧ name = s!"{unit}.{index}" := by
  cases segment with
  | constant | local_ | argument | this | that => exact absurd (Option.some.inj found) (by rintro ⟨⟩)
  | static_ => exact .inr ⟨rfl, (Access.direct.inj (Option.some.inj found)).symm⟩
  | pointer =>
      simp only [access?] at found
      split_ifs at found <;>
      · obtain rfl := Access.direct.inj (Option.some.inj found)
        exact .inl (by decide)
  | temp =>
      have temporary : ∀ index < 8, IsPredefined s!"R{5 + index}" := by decide
      simp only [access?] at found
      split_ifs at found with small
      obtain rfl := Access.direct.inj (Option.some.inj found)
      exact .inl (temporary index small)

section Segments

variable {unit : String} {segment : Segment} {index : Nat} {block : List Line}

/-- A push declares nothing, and a static cell is all that it may name itself. -/
theorem mentions_pushBlock (found : pushBlock? unit segment index = some block) :
    declarations block = [] ∧ ∀ name ∈ references block,
      IsPredefined name ∨ NamedBy unit (.push segment index) name := by
  have stack : ∀ name ∈ references pushD, IsPredefined name := by decide
  unfold pushBlock? at found
  split at found
  · split_ifs at found
    obtain rfl := Option.some.inj found
    exact ⟨rfl, fun name member => .inl (stack name member)⟩
  · rename_i register access
    obtain rfl := Option.some.inj found
    refine ⟨rfl, fun name member => .inl ?_⟩
    rcases List.mem_cons.mp member with rfl | behind
    · exact isPredefined_register access
    · exact stack name behind
  · rename_i cell access
    obtain rfl := Option.some.inj found
    refine ⟨rfl, fun name member => ?_⟩
    rcases List.mem_cons.mp member with rfl | behind
    · rcases known_of_direct access with known | ⟨rfl, rfl⟩
      · exact .inl known
      · exact .inr rfl
    · exact .inl (stack name behind)
  · exact absurd found.symm (Option.some_ne_none _)

/-- Neither does a pop. -/
theorem mentions_popBlock (found : popBlock? unit segment index = some block) :
    declarations block = [] ∧ ∀ name ∈ references block,
      IsPredefined name ∨ NamedBy unit (.pop segment index) name := by
  have scratch : ∀ name ∈ ["R13", "SP", "R13"], IsPredefined name := by decide
  unfold popBlock? at found
  split at found
  · exact absurd found.symm (Option.some_ne_none _)
  · rename_i register access
    obtain rfl := Option.some.inj found
    refine ⟨rfl, fun name member => .inl ?_⟩
    rcases List.mem_cons.mp member with rfl | behind
    · exact isPredefined_register access
    · exact scratch name behind
  · rename_i cell access
    obtain rfl := Option.some.inj found
    refine ⟨rfl, fun name member => ?_⟩
    rcases List.mem_cons.mp member with rfl | behind
    · exact .inl (by decide)
    · obtain rfl := List.mem_singleton.mp behind
      rcases known_of_direct access with known | ⟨rfl, rfl⟩
      · exact .inl known
      · exact .inr rfl
  · exact absurd found.symm (Option.some_ne_none _)

end Segments

/-- A function declares its name. -/
theorem mentions_functionBlock (name : String) (localCount : Nat) :
    declarations (functionBlock name localCount) = [name] ∧
      ∀ symbol ∈ references (functionBlock name localCount), IsPredefined symbol := by
  have cleared : declarations (List.replicate localCount clearLocal).flatten = [] ∧
      ∀ symbol ∈ references (List.replicate localCount clearLocal).flatten, IsPredefined symbol := by
    induction localCount with
    | zero => exact ⟨rfl, List.forall_mem_nil _⟩
    | succ count ih =>
        rw [List.replicate_succ, List.flatten_cons, declarations_append, references_append]
        exact ⟨ih.1, List.forall_mem_append.mpr ⟨by decide, ih.2⟩⟩
  exact ⟨congrArg (name :: ·) cleared.1, cleared.2⟩

/-- A call refers to the label to which it returns and to the function. -/
theorem references_callBlock (calls : Nat) (name : String) (argumentCount : Nat) :
    ∃ others, (references (callBlock calls name argumentCount)).Perm
        (others ++ [returnAddress calls]) ∧
      ∀ symbol ∈ others, IsPredefined symbol ∨ symbol = name := by
  let registers := ["SP", "SP", "LCL", "SP", "SP", "ARG", "SP", "SP", "THIS", "SP", "SP", "THAT", "SP",
    "SP", "SP", "ARG", "SP", "LCL"]
  have known : ∀ symbol ∈ registers, IsPredefined symbol := by decide
  refine ⟨registers ++ [name], (List.perm_append_singleton (returnAddress calls) _).symm, ?_⟩
  refine List.forall_mem_append.mpr ⟨fun symbol member => .inl (known symbol member), ?_⟩
  exact List.forall_mem_singleton.mpr (.inr rfl)

namespace Lowering

variable {lowering : Lowering} {instruction : Instruction} {block : List Line}

/-- The labels that an instruction is given, if it is a comparison or a call. -/
def generatedBy (lowering : Lowering) : Instruction → List String
  | .operate operation =>
    if isComparison operation then
      [comparisonFails lowering.comparisons, comparisonEnds lowering.comparisons]
    else []
  | .call _ _ => [returnAddress lowering.calls]
  | _ => []

/-- **A block declares** the labels that it should. -/
theorem declarations_block (found : lowering.block? instruction = some block) :
    declarations block = lowering.declared instruction := by
  cases instruction with
  | push segment index => exact (mentions_pushBlock found).1
  | pop segment index => exact (mentions_popBlock found).1
  | operate operation =>
      obtain rfl := Option.some.inj found
      cases operation <;> rfl
  | label | goto | ifGoto | return_ =>
      obtain rfl := Option.some.inj found
      rfl
  | call name argumentCount =>
      simp only [block?] at found
      split_ifs at found
      obtain rfl := Option.some.inj found
      rfl
  | function name localCount =>
      obtain rfl := Option.some.inj found
      exact (mentions_functionBlock name localCount).1

/-- **A block refers** once to each of the labels that its instruction is given, and besides only to
predefined symbols and to those that the instruction names itself. -/
theorem references_block (found : lowering.block? instruction = some block) :
    ∃ others, (references block).Perm (others ++ lowering.generatedBy instruction) ∧
      ∀ name ∈ others, IsPredefined name ∨ NamedBy lowering.unit instruction name := by
  have only (given : lowering.generatedBy instruction = [])
      (known : ∀ name ∈ references block, IsPredefined name ∨ NamedBy lowering.unit instruction name) :
      ∃ others, (references block).Perm (others ++ lowering.generatedBy instruction) ∧
        ∀ name ∈ others, IsPredefined name ∨ NamedBy lowering.unit instruction name :=
    ⟨references block, by rw [given, List.append_nil], known⟩
  have stack : IsPredefined "SP" := by decide
  cases instruction with
  | push segment index => exact only rfl (mentions_pushBlock found).2
  | pop segment index => exact only rfl (mentions_popBlock found).2
  | operate operation =>
      obtain rfl := Option.some.inj found
      -- A comparison refers to the stack pointer before and behind each of its two labels.
      have comparison (fails ends : String) :
          ["SP", fails, "SP", ends, "SP"].Perm (["SP", "SP", "SP"] ++ [fails, ends]) := by
        have behind : (["SP", "SP"] ++ ends :: ["SP"]).Perm (ends :: ["SP", "SP", "SP"]) :=
          List.perm_middle
        calc
          List.Perm _ (fails :: (["SP", "SP"] ++ ends :: ["SP"])) := .swap fails "SP" _
          List.Perm _ ([fails, ends] ++ ["SP", "SP", "SP"]) := behind.cons fails
          List.Perm _ _ := List.perm_append_comm
      have unary (result : Computation) : ∀ name ∈ references (unaryBlock result), IsPredefined name :=
        List.forall_mem_singleton.mpr stack
      have binary (result : Computation) : ∀ name ∈ references (binaryBlock result), IsPredefined name :=
        List.forall_mem_singleton.mpr stack
      cases operation with
      | neg | not => exact only rfl fun name member => .inl (unary _ name member)
      | add | sub | and | or => exact only rfl fun name member => .inl (binary _ name member)
      | eq | gt | lt =>
          refine ⟨["SP", "SP", "SP"], comparison _ _, fun name member => .inl ?_⟩
          obtain rfl := List.eq_of_mem_replicate (n := 3) member
          exact stack
  | label name =>
      obtain rfl := Option.some.inj found
      exact only rfl (List.forall_mem_nil _)
  | goto name =>
      obtain rfl := Option.some.inj found
      exact only rfl (List.forall_mem_singleton.mpr (.inr ⟨lowering.function, rfl⟩))
  | ifGoto name =>
      obtain rfl := Option.some.inj found
      exact only rfl (List.forall_mem_cons.mpr
        ⟨.inl stack, List.forall_mem_singleton.mpr (.inr ⟨lowering.function, rfl⟩)⟩)
  | call name argumentCount =>
      simp only [block?] at found
      split_ifs at found
      obtain rfl := Option.some.inj found
      exact references_callBlock lowering.calls name argumentCount
  | function name localCount =>
      obtain rfl := Option.some.inj found
      exact only rfl fun symbol member => .inl ((mentions_functionBlock name localCount).2 symbol member)
  | return_ =>
      obtain rfl := Option.some.inj found
      have known : ∀ name ∈ references returnBlock, IsPredefined name := by decide
      exact only rfl fun name member => .inl (known name member)

/-- A block declares labels of the source, or those that its instruction is given. -/
theorem declared_eq (lowering : Lowering) (instruction : Instruction) :
    lowering.declared instruction =
      lowering.declaredBySource instruction ++ lowering.generatedBy instruction := by
  cases instruction <;> rfl

/-- Behind an instruction its labels have been given. -/
theorem generated_pass (lowering : Lowering) (instruction : Instruction) :
    (generated (lowering.pass instruction).comparisons (lowering.pass instruction).calls).Perm
      (generated lowering.comparisons lowering.calls ++ lowering.generatedBy instruction) := by
  have given := lowering.perm_generated instruction
  rw [declared_eq] at given
  refine (List.perm_append_left_iff (lowering.declaredBySource instruction)).mp (given.trans ?_)
  calc generated lowering.comparisons lowering.calls ++
        (lowering.declaredBySource instruction ++ lowering.generatedBy instruction)
    List.Perm _ (lowering.declaredBySource instruction ++
        (generated lowering.comparisons lowering.calls ++ lowering.generatedBy instruction)) :=
      List.perm_append_comm_assoc _ _ _

/-- What stood beside the labels so far, and what an instruction adds beside its own, stand together beside the labels
behind it. -/
theorem perm_pass (lowering : Lowering) (instruction : Instruction) (before added : List String) :
    (before ++ generated lowering.comparisons lowering.calls ++
        (added ++ lowering.generatedBy instruction)).Perm
      (before ++ added ++
        generated (lowering.pass instruction).comparisons (lowering.pass instruction).calls) := by
  calc
    List.Perm _ (before ++ (added ++
        (generated lowering.comparisons lowering.calls ++ lowering.generatedBy instruction))) := by
      rw [List.append_assoc]
      exact (List.perm_append_comm_assoc _ _ _).append_left before
    List.Perm _ _ := by
      rw [← List.append_assoc]
      exact (lowering.generated_pass instruction).symm.append_left _

/-! ## Accounts -/

/-- **Label accounts.**  The lines so far declare certain labels and those of the comparisons and calls so
far; they refer once to each of the latter, and besides only to known symbols. -/
structure Accounts (lowering : Lowering) (known : String → Prop) (declared : List String) : Prop where
  labels : (declarations lowering.lines.toList).Perm
    (declared ++ generated lowering.comparisons lowering.calls)
  references : ∃ others, (references lowering.lines.toList).Perm
      (others ++ generated lowering.comparisons lowering.calls) ∧ ∀ name ∈ others, known name

/-- What has been lowered, whether or not an instruction was refused. -/
def progress : Except Refusal Lowering → Lowering
  | .ok lowering => lowering
  | .error refusal => refusal.reached

variable {known : String → Prop} {declared : List String}

/-- Comments do not matter. -/
theorem Accounts.note (accounts : lowering.Accounts known declared) (comment : String) :
    (lowering.note comment).Accounts known declared := by
  unfold Lowering.note
  split
  · obtain ⟨others, perm, inOthers⟩ := accounts.references
    refine ⟨?_, others, ?_, inOthers⟩
    · rw [emit_lines, declarations_append]
      exact (List.append_nil _).symm ▸ accounts.labels
    · rw [emit_lines, references_append]
      exact (List.append_nil _).symm ▸ perm
  · exact accounts

/-- **An instruction** that is lowered keeps the accounts, and declares its own labels besides. -/
theorem Accounts.add {after : Lowering} {position : Nat} (accounts : lowering.Accounts known declared)
    (predefined : ∀ name, IsPredefined name → known name)
    (named : ∀ name, NamedBy lowering.unit instruction name → known name)
    (added : lowering.add position instruction = .ok after) :
    after.Accounts known (declared ++ lowering.declaredBySource instruction) ∧
      after.unit = lowering.unit ∧ after.function = functionBehind lowering.function instruction := by
  unfold Lowering.add at added
  split at added
  case h_2 => exact absurd added (by rintro ⟨⟩)
  case h_1 block found =>
    obtain rfl := Except.ok.inj added
    obtain ⟨labels, others, perm, inOthers⟩ := accounts.note instruction.text
    obtain ⟨others', perm', inOthers'⟩ := references_block found
    obtain ⟨comparisons, calls, unit, function⟩ :=
      lowering.fields_behind instruction.text block instruction
    -- A comment line counts nothing, so the accounts of the lines with it are still about the labels so far.
    have sameLabels : generated (lowering.note instruction.text).comparisons
        (lowering.note instruction.text).calls = generated lowering.comparisons lowering.calls := by
      unfold Lowering.note
      split <;> rfl
    rw [sameLabels] at labels perm
    refine ⟨⟨?_, others ++ others', ?_, ?_⟩, unit, function⟩
    · rw [comparisons, calls, pass_lines, emit_lines, declarations_append, declarations_block found,
        declared_eq]
      exact (labels.append_right _).trans (lowering.perm_pass instruction declared _)
    · rw [comparisons, calls, pass_lines, emit_lines, references_append]
      exact (perm.append perm').trans (lowering.perm_pass instruction others others')
    · refine List.forall_mem_append.mpr ⟨inOthers, fun name member => ?_⟩
      exact (inOthers' name member).elim (predefined name) (named name)

/-- An instruction that is refused leaves no more than its comment. -/
theorem Accounts.refuse {refusal : Refusal} {position : Nat}
    (accounts : lowering.Accounts known declared)
    (refused : lowering.add position instruction = .error refusal) :
    refusal.reached.Accounts known declared := by
  unfold Lowering.add at refused
  split at refused
  · exact absurd refused (by rintro ⟨⟩)
  · obtain rfl := Except.error.inj refused
    exact accounts.note instruction.text

/-- **Code** keeps the accounts.  What it declares is, in order, among its labels: they are all of them if
no instruction is refused. -/
theorem Accounts.addAll {code : List Instruction} (accounts : lowering.Accounts known declared)
    (predefined : ∀ name, IsPredefined name → known name)
    (named : ∀ instruction ∈ code, ∀ name, NamedBy lowering.unit instruction name → known name)
    (position : Nat) :
    ∃ more, more.Sublist (sourceLabels lowering.unit lowering.function code) ∧
      (progress (lowering.addAll position code)).Accounts known (declared ++ more) := by
  induction code generalizing lowering declared position with
  | nil => exact ⟨[], .refl _, (List.append_nil declared).symm ▸ accounts⟩
  | cons instruction rest ih =>
      obtain ⟨here, others⟩ := List.forall_mem_cons.mp named
      rw [Lowering.addAll, sourceLabels_cons lowering]
      cases added : lowering.add position instruction with
      | error refusal =>
          exact ⟨[], List.nil_sublist _, (List.append_nil declared).symm ▸ accounts.refuse added⟩
      | ok between =>
          obtain ⟨accountsBetween, unit, function⟩ := accounts.add predefined here added
          rw [← unit] at others
          obtain ⟨more, sublist, accountsAfter⟩ := ih accountsBetween others (position + 1)
          rw [unit, function] at sublist
          rw [List.append_assoc] at accountsAfter
          exact ⟨_, sublist.append_left _, accountsAfter⟩

/-- **A unit** keeps the accounts. -/
theorem Accounts.addUnit {name : String} {code : List Instruction}
    (accounts : lowering.Accounts known declared)
    (predefined : ∀ name, IsPredefined name → known name)
    (named : ∀ instruction ∈ code, ∀ symbol, NamedBy name instruction symbol → known symbol) :
    ∃ more, more.Sublist (sourceLabels name "" code) ∧
      (progress (lowering.addUnit name code)).Accounts known (declared ++ more) := by
  have begun : { lowering with unit := name, function := "" }.Accounts known declared :=
    ⟨accounts.labels, accounts.references⟩
  exact begun.addAll predefined named 1

/-- What sets up the stack declares a label to which it returns, and names the function that it calls. -/
theorem accounts_bootstrap (annotate : Bool) (base : Nat) (entry : String)
    (predefined : ∀ name, IsPredefined name → known name) (named : known entry) :
    (({ annotate } : Lowering).bootstrap base entry).Accounts known [] := by
  obtain ⟨others, perm, inOthers⟩ := references_callBlock 0 entry 0
  have stack : known "SP" := predefined _ (by decide)
  refine ⟨?_, "SP" :: others, ?_, List.forall_mem_cons.mpr ⟨stack, fun name member => ?_⟩⟩
  · rw [bootstrap_lines, bootstrap_comparisons, bootstrap_calls]
    cases annotate <;> exact .refl _
  · rw [bootstrap_lines, bootstrap_comparisons, bootstrap_calls]
    cases annotate <;> exact perm.cons "SP"
  · exact (inOthers name member).elim (predefined name) fun same => same ▸ named

end Lowering

/-! ## Units -/

/-- **Units** keep the accounts, also those that are refused in the middle. -/
theorem lowerUnits_accounts {units : List CompiledUnit} {lowering : Lowering}
    {known : String → Prop} {declared : List String} (accounts : lowering.Accounts known declared)
    (predefined : ∀ name, IsPredefined name → known name)
    (named : ∀ unit ∈ units, ∀ instruction ∈ unit.code, ∀ name,
      NamedBy unit.name instruction name → known name) :
    ∃ more, more.Sublist (units.flatMap fun unit => sourceLabels unit.name "" unit.code) ∧
      (lowerUnits lowering units).1.Accounts known (declared ++ more) := by
  induction units generalizing lowering declared with
  | nil => exact ⟨[], .refl _, (List.append_nil declared).symm ▸ accounts⟩
  | cons unit rest ih =>
      obtain ⟨here, others⟩ := List.forall_mem_cons.mp named
      obtain ⟨first, sublist, accountsBetween⟩ := accounts.addUnit predefined here
      obtain ⟨more, sublistRest, accountsAfter⟩ := ih accountsBetween others
      rw [List.append_assoc] at accountsAfter
      refine ⟨first ++ more, sublist.append sublistRest, ?_⟩
      rw [lowerUnits]
      cases added : lowering.addUnit unit.name unit.code with
      | ok between =>
          rw [added] at accountsAfter
          exact accountsAfter
      | error refusal =>
          rw [added] at accountsAfter
          exact accountsAfter

/-! ## Label lines -/

/-- The lines of the text that declare labels: those that begin with a parenthesis. -/
def Lowering.labelLines (lowering : Lowering) : List String :=
  (lowering.lines.toList.map Line.text).filter (·.toList.head? == some '(')

/-- The line in which a label is declared. -/
theorem label_text_injective : Function.Injective fun name => (Line.label name).text := by
  intro name other same
  have spelled := congrArg String.toList same
  rw [toList_label, toList_label] at spelled
  exact String.toList_inj.mp (List.append_cancel_right (List.cons.inj spelled).2)

/-- **Label lines** are the lines of the labels that are declared. -/
theorem labelLines_eq (lowering : Lowering) :
    lowering.labelLines =
      (declarations lowering.lines.toList).map fun name => (Line.label name).text := by
  have begins (line : Line) : (line.text.toList.head? == some '(') = line.label?.isSome := by
    cases line with
    | comment text => rw [toList_comment]; rfl
    | label name => rw [toList_label]; rfl
    | address target => rw [toList_address]; rfl
    | compute instruction =>
        show (instruction.text.toList.head? == some '(') = false
        cases spelled : instruction.text.toList with
        | nil => rfl
        | cons first rest =>
            have other := Compute.plain_of_mem first
              (instruction.text_subset (spelled ▸ List.mem_cons_self))
            exact beq_eq_false_iff_ne.mpr fun same => other.2.2.1 (Option.some.inj same)
  unfold Lowering.labelLines declarations
  induction lowering.lines.toList with
  | nil => rfl
  | cons line rest ih =>
      rw [List.map_cons, List.filter_cons, begins, ih]
      cases line <;> rfl

end JackToolchain.Hack
