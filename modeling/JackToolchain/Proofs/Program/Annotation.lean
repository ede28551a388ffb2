import JackToolchain.Proofs.Hack.SeenLines
import JackToolchain.Proofs.Program.LoweredLines

/-!
# Annotation

Assembly with comments and the same assembly without them.

## Main Definitions

* `Lowering.unannotated` — assembly less its comments.
* `refusals` — what each of the units is refused for, if it is.

## Main Statements

* `Lowering.add_unannotated`, `Lowering.addAll_unannotated`, `lowerUnits_unannotated` — comments do not
  matter for an instruction, for code, or for units.
* `annotation_is_transparent` — neither failures nor words depend on comments.

## Design Notes

Lowering never looks at the lines so far, so leaving out the comments commutes with it.  The assembler
does look at the comments, and a name with a line feed would end one: what stands behind it on the
next line is then no comment.  This is the only way in which annotation can show.
-/

namespace JackToolchain

open Hack Vm

namespace Hack

/-! ## Assembly without comments -/

namespace Lowering

variable {lowering : Lowering} {instruction : Instruction}

/-- The same assembly without comments, also in what comes behind it. -/
def unannotated (lowering : Lowering) : Lowering :=
  { lowering with annotate := false, lines := lowering.lines.filter Line.isCode }

@[simp] theorem unannotated_lines (lowering : Lowering) :
    lowering.unannotated.lines.toList = lowering.lines.toList.filter Line.isCode :=
  Array.toList_filter

/-- Lines without comments are added in either order. -/
theorem unannotated_emit {block : List Line} (code : block.all Line.isCode = true) :
    (lowering.emit block).unannotated = lowering.unannotated.emit block := by
  have lines : (lowering.lines ++ block).filter Line.isCode =
      lowering.lines.filter Line.isCode ++ block := by
    refine Array.toList_inj.mp ?_
    rw [Array.toList_filter, Array.toList_appendList, List.filter_append, Array.toList_appendList,
      Array.toList_filter, List.filter_eq_self.mpr (List.all_eq_true.mp code)]
  unfold unannotated emit
  rw [lines]

/-- A comment leaves nothing. -/
theorem unannotated_note (comment : String) :
    (lowering.note comment).unannotated = lowering.unannotated := by
  unfold note
  split
  · have lines : (lowering.lines ++ [Line.comment comment]).filter Line.isCode =
        lowering.lines.filter Line.isCode := by
      refine Array.toList_inj.mp ?_
      rw [Array.toList_filter, Array.toList_appendList, List.filter_append, Array.toList_filter]
      exact List.append_nil _
    unfold unannotated emit
    rw [lines]
  · rfl

/-- Numbers and names do not depend on comments… -/
theorem unannotated_pass : (lowering.pass instruction).unannotated =
    lowering.unannotated.pass instruction := by
  cases instruction with
  | operate operation => cases operation <;> rfl
  | push | pop | label | goto | ifGoto | call | function | return_ => rfl

/-- …and neither do blocks. -/
theorem block?_unannotated (lowering : Lowering) (instruction : Instruction) :
    lowering.unannotated.block? instruction = lowering.block? instruction := by
  cases instruction <;> rfl

end Lowering

/-! ## Units without comments -/

/-- The refusal that is met without comments. -/
def Refusal.unannotated (refusal : Refusal) : Refusal :=
  { refusal with reached := refusal.reached.unannotated }

/-- What is met without comments. -/
def unannotatedResult : Except Refusal Lowering → Except Refusal Lowering
  | .ok lowering => .ok lowering.unannotated
  | .error refusal => .error refusal.unannotated

namespace Lowering

/-- **An instruction** is lowered or refused whether or not there are comments. -/
theorem add_unannotated (lowering : Lowering) (position : Nat) (instruction : Instruction) :
    lowering.unannotated.add position instruction =
      unannotatedResult (lowering.add position instruction) := by
  unfold Lowering.add
  rw [block?_unannotated]
  cases found : lowering.block? instruction with
  | none =>
      dsimp only [unannotatedResult, Refusal.unannotated]
      rw [unannotated_note]
      rfl
  | some block =>
      dsimp only [unannotatedResult]
      rw [unannotated_pass, unannotated_emit (all_isCode_block found), unannotated_note]
      rfl

/-- **Code** is lowered, or refused at the same place. -/
theorem addAll_unannotated (code : List Instruction) (lowering : Lowering) (position : Nat) :
    lowering.unannotated.addAll position code =
      unannotatedResult (lowering.addAll position code) := by
  induction code generalizing lowering position with
  | nil => rfl
  | cons instruction rest ih =>
      rw [addAll, addAll, add_unannotated]
      cases lowering.add position instruction with
      | ok between => exact ih between (position + 1)
      | error refusal => rfl

/-- So is a unit. -/
theorem addUnit_unannotated (lowering : Lowering) (name : String) (code : List Instruction) :
    lowering.unannotated.addUnit name code = unannotatedResult (lowering.addUnit name code) :=
  addAll_unannotated code { lowering with unit := name, function := "" } 1

/-- What sets up the stack: a comment, a block and a call. -/
theorem bootstrap_eq (lowering : Lowering) (base : Nat) (entry : String) :
    lowering.bootstrap base entry =
      { (lowering.note "bootstrap").emit (startBlock lowering.calls base entry) with
        calls := lowering.calls + 1 } := rfl

/-- It does so without comments. -/
theorem unannotated_bootstrap (lowering : Lowering) (base : Nat) (entry : String) :
    (lowering.bootstrap base entry).unannotated = lowering.unannotated.bootstrap base entry := by
  have emitted : ((lowering.note "bootstrap").emit (startBlock lowering.calls base entry)).unannotated =
      (lowering.note "bootstrap").unannotated.emit (startBlock lowering.calls base entry) :=
    unannotated_emit (all_isCode_startBlock lowering.calls base entry)
  rw [unannotated_note] at emitted
  have counted (reached : Lowering) : { reached with calls := lowering.calls + 1 }.unannotated =
    { reached.unannotated with calls := lowering.calls + 1 } := rfl
  rw [bootstrap_eq, bootstrap_eq, counted, emitted]
  rfl

theorem start_unannotated (setUp : Option (Nat × String)) :
    (start true setUp).unannotated = start false setUp := by
  have empty : ({ annotate := true } : Lowering).unannotated = { annotate := false } := by
    simp [unannotated]
  cases setUp with
  | none => exact empty
  | some call => rw [start, unannotated_bootstrap, empty, start]

end Lowering

end Hack

/-- What each of the units is refused for, if it is. -/
def refusals (lowering : Lowering) : List CompiledUnit → List (Option Error)
  | [] => []
  | unit :: rest =>
    match lowering.addUnit unit.name unit.code with
    | .ok lowering => none :: refusals lowering rest
    | .error refusal => some refusal.error :: refusals refusal.reached rest

/-- **Failures** are the refusals, each under the name of its unit. -/
theorem failures_lowerUnits (lowering : Lowering) (units : List CompiledUnit) :
    (lowerUnits lowering units).2 = (units.zip (refusals lowering units)).filterMap
      fun (unit, refused) => refused.map (Failure.mk unit.name) := by
  induction units generalizing lowering with
  | nil => rfl
  | cons unit rest ih =>
      rw [lowerUnits, refusals]
      cases lowering.addUnit unit.name unit.code with
      | ok between => exact ih between
      | error refusal => exact congrArg (_ :: ·) (ih refusal.reached)

/-- The same units are refused, for the same reasons. -/
theorem refusals_unannotated (units : List CompiledUnit) (lowering : Lowering) :
    refusals lowering.unannotated units = refusals lowering units := by
  induction units generalizing lowering with
  | nil => rfl
  | cons unit rest ih =>
      rw [refusals, refusals, Lowering.addUnit_unannotated]
      cases lowering.addUnit unit.name unit.code with
      | ok between => exact congrArg (none :: ·) (ih between)
      | error refusal => exact congrArg (some refusal.error :: ·) (ih refusal.reached)

/-- **Units** are lowered to the same assembly, less its comments. -/
theorem lowerUnits_unannotated (units : List CompiledUnit) (lowering : Lowering) :
    (lowerUnits lowering.unannotated units).1 = (lowerUnits lowering units).1.unannotated := by
  induction units generalizing lowering with
  | nil => rfl
  | cons unit rest ih =>
      rw [lowerUnits, lowerUnits, Lowering.addUnit_unannotated]
      cases lowering.addUnit unit.name unit.code with
      | ok between => exact ih between
      | error refusal => exact ih refusal.reached

theorem run_unannotated (setUp : Option (Nat × String)) (units : List CompiledUnit) :
    (Lowering.run true setUp units).unannotated = Lowering.run false setUp units := by
  unfold Lowering.run
  rw [← lowerUnits_unannotated, Lowering.start_unannotated]

/-! ## Comments -/

namespace Hack.Lowering

/-- Comments that stay on their lines are not seen. -/
theorem sourceLines_unannotated (lowering : Lowering)
    (comments : ∀ content, .comment content ∈ lowering.lines.toList → '\n' ∉ content.toList) :
    (sourceLines lowering.unannotated.text).map (·.2) = (sourceLines lowering.text).map (·.2) := by
  unfold Lowering.text
  rw [sourceLines_unlines, sourceLines_unlines, unannotated_lines]
  generalize lowering.lines.toList = lines at comments
  induction lines with
  | nil => rfl
  | cons line rest ih =>
      have behind := ih fun content member => comments content (List.mem_cons_of_mem _ member)
      cases line with
      | comment content =>
          rw [List.flatMap_cons, Line.seen_comment (comments content List.mem_cons_self),
            List.nil_append]
          exact behind
      | label | address | compute =>
          rw [List.filter_cons_of_pos rfl, List.flatMap_cons, List.flatMap_cons, behind]

end Hack.Lowering

/-- **Annotation is transparent.**  Whatever sets up the stack, if no name of an instruction holds a line
feed, the same units are refused for the same reasons with comments and without them.  The two texts are
assembled to the same words with the same symbols, or both are refused for the same cause, in a line
that may have another number. -/
theorem annotation_is_transparent (setUp : Option (Nat × String)) {units : List CompiledUnit}
    (oneLine : ∀ unit ∈ units, ∀ i ∈ unit.code, ∀ name ∈ i.name?, '\n' ∉ name.toList) :
    refusals (Lowering.start true setUp) units = refusals (Lowering.start false setUp) units ∧
    (∀ annotate, (lowerUnits (Lowering.start annotate setUp) units).2 =
      (units.zip (refusals (Lowering.start annotate setUp) units)).filterMap
        fun (unit, refused) => refused.map (Failure.mk unit.name)) ∧
    ((∃ assembled, assemble (Lowering.run true setUp units).text = .ok assembled ∧
        assemble (Lowering.run false setUp units).text = .ok assembled) ∨
      ∃ line other cause,
        assemble (Lowering.run true setUp units).text = .error (.assembly line cause) ∧
        assemble (Lowering.run false setUp units).text = .error (.assembly other cause)) := by
  refine ⟨?_, fun annotate => failures_lowerUnits _ units, ?_⟩
  · rw [← Lowering.start_unannotated, refusals_unannotated]
  · have seen := Lowering.sourceLines_unannotated (Lowering.run true setUp units) fun _ =>
      comments_run true setUp ('\n' ∉ ·.toList) (by decide) fun unit inUnits i inCode =>
        Instruction.not_mem_text (by decide) (by decide) (oneLine unit inUnits i inCode)
    rw [run_unannotated] at seen
    exact (assemble_agree seen.symm).same_or_refused

/-- A unit that is refused in its second instruction, and one that declares a label twice. -/
private def faultyUnits : List CompiledUnit :=
  [⟨"A", .vm, [.push .static_ 0, .pop .temp 9]⟩, ⟨"B", .vm, [.label "y", .label "y"]⟩]

theorem faults_found_with_comments :
    (∀ unit ∈ faultyUnits, ∀ i ∈ unit.code, ∀ name ∈ i.name?, '\n' ∉ name.toList) ∧
    refusals (Lowering.start true none) faultyUnits =
      [some (.unsupported 2 "pop temp 9"), none] ∧
    assemble (Lowering.run false none faultyUnits).text =
      .error (.assembly 9 (.labelDeclaredTwice "B$y")) ∧
    ∃ line, assemble (Lowering.run true none faultyUnits).text =
      .error (.assembly line (.labelDeclaredTwice "B$y")) := by
  have oneLine : ∀ unit ∈ faultyUnits, ∀ i ∈ unit.code, ∀ name ∈ i.name?, '\n' ∉ name.toList := by
    decide
  have bare : assemble (Lowering.run false none faultyUnits).text =
      .error (.assembly 9 (.labelDeclaredTwice "B$y")) := by rfl
  have refused : refusals (Lowering.start false none) faultyUnits =
      [some (.unsupported 2 "pop temp 9"), none] := by decide
  obtain ⟨sameRefusals, -, ⟨assembled, -, accepted⟩ | ⟨line, other, cause, noted, failed⟩⟩ :=
    annotation_is_transparent none oneLine
  · cases bare.symm.trans accepted
  · obtain ⟨rfl, rfl⟩ := Error.assembly.inj (Except.error.inj (bare.symm.trans failed))
    exact ⟨oneLine, sameRefusals.trans refused, bare, line, noted⟩

end JackToolchain
