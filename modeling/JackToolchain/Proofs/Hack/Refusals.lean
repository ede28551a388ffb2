import JackToolchain.Proofs.Hack.Linking
import Mathlib.Tactic.SplitIfs

/-!
# Refusals

Which instructions the machine cannot carry out, and what a unit that holds one of them leaves behind.

## Main Definitions

* `IsUnsupported` — the instructions that are refused, whatever has been lowered before.
* `outcomeBehind` — what becomes of a unit, told behind lines that were there before.
* `Refusal.CutsShort` — a unit that is lowered up to its first unsupported instruction.

## Main Statements

* `Lowering.block?_eq_none_iff` — exactly the unsupported instructions have no block.
* `Lowering.addUnit_behind` — earlier lines do not matter to what becomes of a unit.
* `Lowering.addUnit_refuses_first` — a unit is refused if and only if it holds an unsupported
  instruction; it is cut short at the first of them, and the next unit goes on as if it had ended there.
-/

namespace JackToolchain.Hack

open Vm

/-! ## Unsupported instructions -/

/-- **Unsupported instructions**: a constant that no address instruction can hold or that is to be
overwritten, a cell that its segment does not have, and a frame that is too large. -/
def IsUnsupported : Instruction → Prop
  | .push .constant index => 32767 < index
  | .pop .constant _ => True
  | .push .pointer index | .pop .pointer index => 1 < index
  | .push .temp index | .pop .temp index => 7 < index
  | .call _ argumentCount => 32762 < argumentCount
  | _ => False

section Segments

variable {unit : String} {segment : Segment} {index : Nat}

/-- The register segments are the ones that may lack a cell. -/
theorem access?_eq_none_iff : access? unit segment index = none ↔
    segment = .pointer ∧ 1 < index ∨ segment = .temp ∧ 7 < index := by
  cases segment with
  | pointer =>
      rw [access?]
      split_ifs with first second
      · exact iff_of_false not_false (by rintro (⟨-, large⟩ | ⟨⟨⟩, -⟩); omega)
      · exact iff_of_false not_false (by rintro (⟨-, large⟩ | ⟨⟨⟩, -⟩); omega)
      · exact ⟨fun _ => .inl ⟨rfl, by omega⟩, fun _ => rfl⟩
  | temp =>
      rw [access?]
      split_ifs with small
      · exact iff_of_false not_false (by rintro (⟨⟨⟩, -⟩ | ⟨-, large⟩); omega)
      · exact ⟨fun _ => .inr ⟨rfl, by omega⟩, fun _ => rfl⟩
  | _ => exact iff_of_false (Option.some_ne_none _) (by rintro (⟨⟨⟩, -⟩ | ⟨⟨⟩, -⟩))

theorem pushBlock?_eq_none_iff :
    pushBlock? unit segment index = none ↔ IsUnsupported (.push segment index) := by
  have lacking : pushBlock? unit segment index = none ↔ access? unit segment index = none ∨
      access? unit segment index = some .constant ∧ largestConstant < index := by
    unfold pushBlock?
    cases access? unit segment index with
    | none => exact ⟨fun _ => .inl rfl, fun _ => rfl⟩
    | some access =>
        cases access with
        | constant =>
            dsimp only
            split_ifs with small
            · exact ⟨nofun, by rintro (⟨⟨⟩⟩ | ⟨-, large⟩); omega⟩
            · exact ⟨fun _ => .inr ⟨rfl, Nat.lt_of_not_le small⟩, fun _ => rfl⟩
        | indirect register => simp
        | direct name => simp
  rw [lacking, access?_eq_none_iff]
  cases segment <;> simp [IsUnsupported, access?, largestConstant, ite_eq_iff]

theorem popBlock?_eq_none_iff :
    popBlock? unit segment index = none ↔ IsUnsupported (.pop segment index) := by
  have lacking : popBlock? unit segment index = none ↔ access? unit segment index = none ∨
      access? unit segment index = some .constant := by
    unfold popBlock?
    cases access? unit segment index with
    | none => exact ⟨fun _ => .inl rfl, fun _ => rfl⟩
    | some access => cases access <;> simp
  rw [lacking, access?_eq_none_iff]
  cases segment <;> simp [IsUnsupported, access?, ite_eq_iff]

end Segments

namespace Lowering

variable {lowering after : Lowering} {instruction : Instruction} {position : Nat}

/-- **Refused instructions** are the unsupported ones, in every unit and behind all lines. -/
theorem block?_eq_none_iff : lowering.block? instruction = none ↔ IsUnsupported instruction := by
  cases instruction with
  | push segment index => exact pushBlock?_eq_none_iff
  | pop segment index => exact popBlock?_eq_none_iff
  | call name argumentCount =>
      have limit : largestConstant = 32767 := rfl
      rw [block?, IsUnsupported, frameSize]
      split_ifs with small
      · exact iff_of_false not_false (by omega)
      · exact iff_of_true rfl (by omega)
  | _ => exact iff_of_false (Option.some_ne_none _) not_false

/-- A refusal leaves the comment of its instruction and nothing else. -/
theorem add_of_isUnsupported (unsupported : IsUnsupported instruction) :
    lowering.add position instruction =
      .error ⟨position, instruction, lowering.note instruction.text⟩ := by
  rw [add, block?_eq_none_iff.mpr unsupported]

theorem exists_add_of_not_isUnsupported (lowering : Lowering) (position : Nat)
    (supported : ¬ IsUnsupported instruction) :
    ∃ between, lowering.add position instruction = .ok between := by
  cases found : lowering.block? instruction with
  | none => exact absurd (block?_eq_none_iff.mp found) supported
  | some block => exact ⟨_, by rw [add, found]⟩

/-! ## Comments -/

theorem note_annotate (comment : String) :
    (lowering.note comment).annotate = lowering.annotate := by
  rw [note]
  split <;> rfl

theorem note_calls (comment : String) :
    (lowering.note comment).calls = lowering.calls := by
  rw [note]
  split <;> rfl

theorem pass_annotate : (lowering.pass instruction).annotate = lowering.annotate := by
  cases instruction with
  | operate operation =>
      rw [pass]
      split <;> rfl
  | _ => rfl

/-- Whether there are comments does not change. -/
theorem annotate_of_addAll {code : List Instruction} (added : lowering.addAll position code = .ok after) :
    after.annotate = lowering.annotate := by
  induction code generalizing lowering position with
  | nil => rw [Except.ok.inj added]
  | cons instruction rest ih =>
      rw [addAll, add] at added
      cases found : lowering.block? instruction with
      | none => exact absurd (found ▸ added) (by rintro ⟨⟩)
      | some block =>
          rw [found] at added
          rw [ih added, pass_annotate]
          exact note_annotate instruction.text

/-! ## Earlier lines -/

/-- What was lowered, behind other lines. -/
def behind (lowering : Lowering) (lines : Array Line) : Lowering :=
  { lowering with lines := lines ++ lowering.lines }

/-- Every lowering stands behind its own lines. -/
theorem behind_lines (lowering : Lowering) :
    { lowering with lines := #[] }.behind lowering.lines = lowering := by
  rw [behind, Array.append_empty]

theorem emit_behind (block : List Line) (lines : Array Line) :
    (lowering.behind lines).emit block = (lowering.emit block).behind lines := by
  have same : lines ++ lowering.lines ++ block = lines ++ (lowering.lines ++ block) := by
    apply Array.ext'
    simp
  rw [emit, emit, behind, behind, same]

theorem note_behind (comment : String) (lines : Array Line) :
    (lowering.behind lines).note comment = (lowering.note comment).behind lines := by
  cases annotate : lowering.annotate with
  | false => rw [note, note, if_neg (by rw [behind, annotate]; simp), if_neg (by simp [annotate])]
  | true => rw [note, note, if_pos (by rw [behind, annotate]), if_pos annotate, emit_behind]

theorem pass_behind (lines : Array Line) :
    (lowering.behind lines).pass instruction = (lowering.pass instruction).behind lines := by
  cases instruction with
  | operate operation =>
      rw [pass, pass]
      split <;> rfl
  | _ => rfl

theorem block?_behind (lines : Array Line) :
    (lowering.behind lines).block? instruction = lowering.block? instruction := by
  cases instruction <;> rfl

end Lowering

/-- What becomes of code, behind other lines. -/
def outcomeBehind (lines : Array Line) : Except Refusal Lowering → Except Refusal Lowering
  | .ok lowering => .ok (lowering.behind lines)
  | .error refusal => .error { refusal with reached := refusal.reached.behind lines }

namespace Lowering

theorem add_behind (lowering : Lowering) (lines : Array Line) (position : Nat)
    (instruction : Instruction) :
    (lowering.behind lines).add position instruction =
      outcomeBehind lines (lowering.add position instruction) := by
  rw [add, add, block?_behind, note_behind]
  cases lowering.block? instruction with
  | none => rfl
  | some block =>
      dsimp only [outcomeBehind]
      rw [emit_behind, pass_behind]

theorem addAll_behind (code : List Instruction) (lowering : Lowering) (lines : Array Line)
    (position : Nat) :
    (lowering.behind lines).addAll position code =
      outcomeBehind lines (lowering.addAll position code) := by
  induction code generalizing lowering position with
  | nil => rfl
  | cons instruction rest ih =>
      rw [addAll, addAll, add_behind]
      cases lowering.add position instruction with
      | ok between => exact ih between (position + 1)
      | error refusal => rfl

/-- **Earlier lines** do not matter to what becomes of a unit. -/
theorem addUnit_behind (lowering : Lowering) (lines : Array Line) (name : String)
    (code : List Instruction) :
    (lowering.behind lines).addUnit name code = outcomeBehind lines (lowering.addUnit name code) :=
  addAll_behind code { lowering with unit := name, function := "" } lines 1

/-- **Two lowerings** with the same numbers go on alike, each behind its own lines. -/
theorem addUnit_of_same_numbers {one two : Lowering} (annotate : one.annotate = two.annotate)
    (comparisons : one.comparisons = two.comparisons) (calls : one.calls = two.calls)
    (name : String) (code : List Instruction) :
    ∃ outcome, one.addUnit name code = outcomeBehind one.lines outcome ∧
      two.addUnit name code = outcomeBehind two.lines outcome := by
  have same : { one with lines := #[] }.addUnit name code =
      { two with lines := #[] }.addUnit name code := by
    rw [addUnit, addUnit, annotate, comparisons, calls]
  refine ⟨{ one with lines := #[] }.addUnit name code, ?_, ?_⟩
  · rw [← addUnit_behind, behind_lines]
  · rw [same, ← addUnit_behind, behind_lines]

/-! ## Units -/

/-- **Code** is lowered to its end, or up to its first unsupported instruction. -/
theorem addAll_cases (code : List Instruction) (lowering : Lowering) (position : Nat) :
    (∃ after, lowering.addAll position code = .ok after ∧
        ∀ instruction ∈ code, ¬ IsUnsupported instruction) ∨
      ∃ front instruction rest before, code = front ++ instruction :: rest ∧
        (∀ earlier ∈ front, ¬ IsUnsupported earlier) ∧ IsUnsupported instruction ∧
        lowering.addAll position front = .ok before ∧
        lowering.addAll position code =
          .error ⟨position + front.length, instruction, before.note instruction.text⟩ := by
  induction code generalizing lowering position with
  | nil => exact .inl ⟨lowering, rfl, List.forall_mem_nil _⟩
  | cons instruction rest ih =>
      by_cases unsupported : IsUnsupported instruction
      · refine .inr ⟨[], instruction, rest, lowering, rfl, List.forall_mem_nil _, unsupported, rfl, ?_⟩
        rw [addAll, add_of_isUnsupported unsupported]
        rfl
      · obtain ⟨between, added⟩ := exists_add_of_not_isUnsupported lowering position unsupported
        have step (code : List Instruction) : lowering.addAll position (instruction :: code) =
            between.addAll (position + 1) code := by
          rw [addAll, added]
        rcases ih between (position + 1) with ⟨after, ok, supported⟩ |
          ⟨front, first, rest, before, rfl, supported, refused, ok, error⟩
        · exact .inl ⟨after, (step rest).trans ok, List.forall_mem_cons.mpr ⟨unsupported, supported⟩⟩
        · refine .inr ⟨instruction :: front, first, rest, before, rfl, ?_, refused, ?_, ?_⟩
          · exact List.forall_mem_cons.mpr ⟨unsupported, supported⟩
          · exact (step front).trans ok
          · rw [step, error, List.length_cons, Nat.add_right_comm, Nat.add_assoc]

end Lowering

/-- **A unit cut short** at its first unsupported instruction, with what was lowered before it. -/
structure Refusal.CutsShort (refusal : Refusal) (lowering : Lowering) (name : String)
    (code front rest : List Instruction) (before : Lowering) : Prop where
  split : code = front ++ refusal.instruction :: rest
  supported : ∀ instruction ∈ front, ¬ IsUnsupported instruction
  unsupported : IsUnsupported refusal.instruction
  /-- The error tells the position of the instruction and how it is written. -/
  error : refusal.error = .unsupported (front.length + 1) refusal.instruction.text
  front_lowered : lowering.addUnit name front = .ok before
  /-- No part of a block is left. -/
  lines : refusal.reached.lines.toList =
    before.lines.toList ++ if lowering.annotate then [.comment refusal.instruction.text] else []
  comparisons : refusal.reached.comparisons = before.comparisons
  calls : refusal.reached.calls = before.calls
  /-- The next unit is lowered as it is behind what stands in front of the instruction. -/
  next_unit : ∀ next more, ∃ outcome, before.addUnit next more = outcomeBehind before.lines outcome ∧
    refusal.reached.addUnit next more = outcomeBehind refusal.reached.lines outcome

namespace Lowering

/-- **Units are refused** if and only if they hold an unsupported instruction, and are cut short at the
first of them. -/
theorem addUnit_refuses_first (lowering : Lowering) (name : String) (code : List Instruction) :
    ((∃ refusal, lowering.addUnit name code = .error refusal) ↔
        ∃ instruction ∈ code, IsUnsupported instruction) ∧
      ∀ refusal, lowering.addUnit name code = .error refusal →
        ∃ front rest before, refusal.CutsShort lowering name code front rest before := by
  rcases addAll_cases code { lowering with unit := name, function := "" } 1 with
    ⟨after, ok, supported⟩ | ⟨front, first, rest, before, split, supported, unsupported, ok, error⟩
  · have accepted : lowering.addUnit name code = .ok after := ok
    refine ⟨⟨fun ⟨refusal, refused⟩ => ?_, fun ⟨instruction, member, unsupported⟩ => ?_⟩,
      fun refusal refused => ?_⟩
    · exact absurd (accepted.symm.trans refused) (by rintro ⟨⟩)
    · exact absurd unsupported (supported instruction member)
    · exact absurd (accepted.symm.trans refused) (by rintro ⟨⟩)
  · have member : first ∈ code := split ▸ List.mem_append_right front List.mem_cons_self
    refine ⟨⟨fun _ => ⟨first, member, unsupported⟩, fun _ => ⟨_, error⟩⟩, fun refusal refused => ?_⟩
    obtain rfl := Except.error.inj (error.symm.trans refused)
    have lowered : { lowering with unit := name, function := "" }.addAll 1 front = .ok before := ok
    have annotate := annotate_of_addAll lowered
    refine ⟨front, rest, before, split, supported, unsupported, ?_, ok, ?_, note_comparisons _ _,
      note_calls _, fun next more => ?_⟩
    · rw [Refusal.error, Nat.add_comm]
    · rw [note_lines, annotate]
    · exact addUnit_of_same_numbers (note_annotate _).symm (note_comparisons _ _).symm
        (note_calls _).symm next more

/-- A constant cannot be overwritten: the push in front of it is lowered, and what stands behind it is
not looked at. -/
theorem pop_constant_cuts_short :
    ∃ refusal front rest before,
      ({ annotate := true } : Lowering).addUnit "Main"
        [.push .constant 7, .pop .constant 0, .push .temp 9] = .error refusal ∧
      refusal.CutsShort { annotate := true } "Main"
        [.push .constant 7, .pop .constant 0, .push .temp 9] front rest before := by
  have first := addUnit_refuses_first { annotate := true } "Main"
    [.push .constant 7, .pop .constant 0, .push .temp 9]
  obtain ⟨refusal, refused⟩ := first.1.mpr
    ⟨.pop .constant 0, List.mem_cons_of_mem _ List.mem_cons_self, trivial⟩
  obtain ⟨front, rest, before, cut⟩ := first.2 refusal refused
  exact ⟨refusal, front, rest, before, refused, cut⟩

end Lowering

end JackToolchain.Hack
