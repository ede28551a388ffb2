import JackToolchain.Proofs.Hack.Assembly
import Mathlib.Data.Finset.Card
import Mathlib.Data.Finset.Dedup

/-!
# Acceptance of assembly

When a text assembles.

## Main Definitions

* `SourceLine.IsSound` — a line with which nothing is wrong by itself.
* `declaredNames` — the labels that lines declare, in order.
* `freeNames` — the names that are used without being declared or predefined; each takes a cell.

## Main Statements

* `layout_accepts` — the first pass accepts different new labels in front of not too many instructions.
* `encoding_accepts` — the second pass accepts sound lines as long as there are cells for free names.
* `assemble_accepts` — both passes.

## Design Notes

The cells that are given out are counted by the set of free names that have been met: a name is met for the
first time exactly if it is not yet known, so the set grows with the number of cells.
-/

namespace JackToolchain.Hack

/-! ## Names in lines -/

namespace SourceLine

/-- The label that a line declares. -/
def declared? : SourceLine → Option String
  | .label name => some (String.ofList name)
  | _ => none

/-- The name that a line uses.  What begins with a digit is a number. -/
def used? : SourceLine → Option String
  | .address target =>
    if target.head?.any Char.isDigit then none else some (String.ofList target)
  | _ => none

/-- **Sound lines.**  Names are symbols, numbers are constants, and everything else is a compute
instruction. -/
def IsSound : SourceLine → Prop
  | .label name => isSymbol name = true
  | .address target =>
    if target.head?.any Char.isDigit then (Text.natural? largestConstant target).isSome = true
    else isSymbol target = true
  | .compute text => ∃ instruction, Compute.read text = .ok instruction

end SourceLine

/-- The labels that lines declare. -/
def declaredNames (lines : List SourceLine) : List String := lines.filterMap (·.declared?)

/-- **Free names.**  The different names that lines use without declaring them, but for those that every
program knows. -/
def freeNames (lines : List SourceLine) : Finset String :=
  ((lines.filterMap (·.used?)).filter fun name =>
    !(declaredNames lines).contains name && !predefined.contains name).toFinset

theorem mem_freeNames {lines : List SourceLine} {name : String} : name ∈ freeNames lines ↔
    (∃ line ∈ lines, line.used? = some name) ∧ name ∉ declaredNames lines ∧
      predefined[name]? = none := by
  unfold freeNames
  rw [List.mem_toFinset, List.mem_filter, List.mem_filterMap, Bool.and_eq_true, Bool.not_eq_true',
    Bool.not_eq_true', ← Bool.not_eq_true, List.contains_iff_mem,
    Std.TreeMap.contains_eq_isSome_getElem?, Option.isSome_eq_false_iff, Option.isNone_iff_eq_none]

/-- Every free name has a line that uses it. -/
theorem card_freeNames_le (lines : List SourceLine) : (freeNames lines).card ≤ lines.length :=
  calc
    _ ≤ _ := List.toFinset_card_le _
    _ ≤ _ := List.length_filter_le _ _
    _ ≤ _ := List.length_filterMap_le _ lines

/-- Exactly the declared labels have a position. -/
theorem labelPosition_eq_none_iff {lines : List (Nat × SourceLine)} {name : String} {first : Nat} :
    labelPosition? name first lines = none ↔ name ∉ declaredNames (lines.map (·.2)) := by
  induction lines generalizing first with
  | nil => exact iff_of_true rfl List.not_mem_nil
  | cons numbered rest ih =>
      obtain ⟨line, content⟩ := numbered
      cases content with
      | label label =>
          have declared : declaredNames (((line, .label label) :: rest).map (·.2)) =
            String.ofList label :: declaredNames (rest.map (·.2)) := rfl
          rw [labelPosition?, declared, List.mem_cons, not_or]
          split
          · rename_i same
            exact iff_of_false (Option.some_ne_none _) fun other => other.1 same.symm
          · rename_i other
            rw [ih]
            exact (and_iff_right (Ne.symm other)).symm
      | address | compute => exact ih

/-! ## The first pass -/

/-- While the program may grow, any line that declares nothing is accepted. -/
theorem Layout.step_of_room {layout : Layout} {line : Nat} {instruction : SourceLine}
    (takesWord : instruction.isInstruction = true) (room : layout.next < largestProgram) :
    layout.step (line, instruction) = .ok { layout with next := layout.next + 1 } := by
  cases instruction with
  | label name => exact absurd takesWord Bool.false_ne_true
  | address | compute =>
      rw [Layout.step, if_pos room]
      intro name same
      cases same

/-- **The first pass accepts** different new labels in front of not too many instructions. -/
theorem layout_accepts {lines : List (Nat × SourceLine)} {layout : Layout}
    (sound : ∀ numbered ∈ lines, numbered.2.IsSound)
    (nodup : (declaredNames (lines.map (·.2))).Nodup)
    (fresh : ∀ name ∈ declaredNames (lines.map (·.2)), layout.symbols[name]? = none)
    (short : layout.next + (instructionsOf lines).length ≤ largestProgram) :
    ∃ after, lines.foldlM Layout.step layout = .ok after := by
  induction lines generalizing layout with
  | nil => exact ⟨layout, rfl⟩
  | cons numbered rest ih =>
      obtain ⟨here, others⟩ := List.forall_mem_cons.mp sound
      obtain ⟨line, content⟩ := numbered
      cases content with
      | label name =>
          obtain ⟨unused, nodup⟩ := List.nodup_cons.mp nodup
          obtain ⟨freshHere, freshBehind⟩ := List.forall_mem_cons.mp fresh
          have unknown : layout.symbols.contains (String.ofList name) = false := by
            rw [Std.TreeMap.contains_eq_isSome_getElem?, freshHere]
            rfl
          rw [foldlM_cons_of_ok (Layout.step_label_of_fresh here unknown)]
          refine ih others nodup ?_ short
          -- The label just declared is not among those that follow, so they are as new as before.
          intro other member
          have different : String.ofList name ≠ other := by
            rintro rfl
            exact unused member
          rw [getElem?_insert_symbol, if_neg different, freshBehind other member]
      | address | compute =>
          have longer : layout.next + ((instructionsOf rest).length + 1) ≤ largestProgram := short
          rw [foldlM_cons_of_ok (Layout.step_of_room rfl (by omega))]
          refine ih others nodup fresh ?_
          show layout.next + 1 + _ ≤ _
          omega

/-! ## The second pass -/

/-- **Room for free names.**  The cells that are given out belong to different free names that are
known. -/
def Encoding.HasRoom (free : Finset String) (encoding : Encoding) : Prop :=
  ∃ met ⊆ free, encoding.nextVariable = firstVariable + met.card ∧
    ∀ name ∈ met, encoding.symbols[name]? ≠ none

section Encoding

variable {free : Finset String} {encoding : Encoding} {target : List Char}

/-- The name of an address is known, or free. -/
def Encoding.Provides (free : Finset String) (encoding : Encoding) (name : String) : Prop :=
  name ∈ free ∨ encoding.symbols[name]? ≠ none

/-- **Addresses** are accepted as long as there are cells for free names. -/
theorem Encoding.address_accepts (few : free.card ≤ screen - firstVariable)
    (room : encoding.HasRoom free) (sound : (SourceLine.address target).IsSound)
    (provided : ∀ name ∈ (SourceLine.address target).used?, encoding.Provides free name) :
    ∃ after, encoding.address target = .ok after ∧ after.HasRoom free ∧
      ∀ name, encoding.Provides free name → after.Provides free name := by
  rw [SourceLine.IsSound] at sound
  unfold Encoding.address
  dsimp only
  cases digit : target.head?.any Char.isDigit with
  | true =>
      rw [digit, if_pos rfl] at sound
      obtain ⟨value, read⟩ := Option.isSome_iff_exists.mp sound
      rw [if_pos rfl, read]
      exact ⟨_, rfl, room, fun name => id⟩
  | false =>
      rw [digit, if_neg Bool.false_ne_true] at sound
      rw [if_neg Bool.false_ne_true]
      cases bound : encoding.symbols[String.ofList target]? with
      | some value => exact ⟨_, rfl, room, fun name => id⟩
      | none =>
          -- an unknown name is met for the first time
          obtain ⟨met, within, counted, known⟩ := room
          have used : String.ofList target ∈ (SourceLine.address target).used? := by
            rw [SourceLine.used?, digit]
            rfl
          have isFree : String.ofList target ∈ free :=
            (provided _ used).resolve_right fun known => known bound
          have unmet : String.ofList target ∉ met := fun member => known _ member bound
          have grown : insert (String.ofList target) met ⊆ free :=
            Finset.insert_subset isFree within
          have counted' := Finset.card_le_card grown
          rw [Finset.card_insert_of_notMem unmet] at counted'
          have cell : encoding.nextVariable < screen := by
            rw [counted]
            have bounds : firstVariable ≤ screen := by decide
            omega
          dsimp only
          rw [sound, if_neg (by decide), if_pos cell]
          refine ⟨_, rfl, ⟨_, grown, ?_, ?_⟩, ?_⟩
          · rw [Finset.card_insert_of_notMem unmet, ← Nat.add_assoc, ← counted]
          · intro name member
            show (encoding.symbols.insert _ _)[name]? ≠ none
            rw [getElem?_insert_symbol]
            split
            · exact Option.some_ne_none _
            · rename_i other
              exact known name ((Finset.mem_insert.mp member).resolve_left fun same => other same.symm)
          · rintro name (isFree | isKnown)
            · exact .inl isFree
            · refine .inr ?_
              show (encoding.symbols.insert _ _)[name]? ≠ none
              rw [getElem?_insert_symbol]
              split
              · exact Option.some_ne_none _
              · exact isKnown

/-- **The second pass accepts** sound lines as long as there are cells for free names. -/
theorem encoding_accepts {lines : List (Nat × SourceLine)}
    (few : free.card ≤ screen - firstVariable) (room : encoding.HasRoom free)
    (sound : ∀ numbered ∈ lines, numbered.2.IsSound)
    (provided : ∀ numbered ∈ lines, ∀ name ∈ numbered.2.used?, encoding.Provides free name) :
    ∃ after, lines.foldlM Encoding.step encoding = .ok after := by
  induction lines generalizing encoding with
  | nil => exact ⟨encoding, rfl⟩
  | cons numbered rest ih =>
      obtain ⟨here, others⟩ := List.forall_mem_cons.mp sound
      obtain ⟨providedHere, providedBehind⟩ := List.forall_mem_cons.mp provided
      obtain ⟨line, content⟩ := numbered
      cases content with
      | label name => exact ih room others providedBehind
      | address target =>
          obtain ⟨after, accepted, room, kept⟩ :=
            Encoding.address_accepts few room here providedHere
          have stepped : encoding.step (line, .address target) = .ok after := by
            rw [Encoding.step, accepted]
            rfl
          rw [foldlM_cons_of_ok stepped]
          exact ih room others fun numbered member name used =>
            kept name (providedBehind numbered member name used)
      | compute text =>
          obtain ⟨instruction, read⟩ := here
          have stepped : encoding.step (line, .compute text) =
              .ok (encoding.push instruction.encode) := by
            rw [Encoding.step, read]
          rw [foldlM_cons_of_ok stepped]
          exact ih room others providedBehind

end Encoding

/-! ## Both passes -/

/-- **Acceptance.**  A text assembles if its lines are sound, its labels are different and not predefined,
and it has neither too many instructions nor too many free names. -/
theorem assemble_accepts {source : String}
    (sound : ∀ numbered ∈ sourceLines source, numbered.2.IsSound)
    (nodup : (declaredNames ((sourceLines source).map (·.2))).Nodup)
    (fresh : ∀ name ∈ declaredNames ((sourceLines source).map (·.2)), predefined[name]? = none)
    (short : (instructionLines source).length ≤ largestProgram)
    (few : (freeNames ((sourceLines source).map (·.2))).card ≤ screen - firstVariable) :
    ∃ assembled, assemble source = .ok assembled := by
  obtain ⟨layout, first⟩ : ∃ layout, (sourceLines source).foldlM Layout.step {} = .ok layout :=
    layout_accepts sound nodup fresh (by rw [Nat.zero_add]; exact short)
  have second : ∃ encoding,
      (sourceLines source).foldlM Encoding.step { symbols := layout.symbols } = .ok encoding := by
    refine encoding_accepts few ⟨∅, Finset.empty_subset _, rfl, ?_⟩ sound ?_
    · exact fun name member => absurd member (Finset.notMem_empty name)
    · intro numbered member name used
      by_cases isFree : name ∈ freeNames ((sourceLines source).map (·.2))
      · exact .inl isFree
      · refine .inr fun unknown => isFree ?_
        have bound : layout.symbols[name]? = none := unknown
        rw [layout_symbols first, Option.or_eq_none_iff] at bound
        refine mem_freeNames.mpr ⟨⟨numbered.2, List.mem_map_of_mem member, used⟩, ?_, bound.1⟩
        exact labelPosition_eq_none_iff.mp bound.2
  obtain ⟨encoding, second⟩ := second
  exact ⟨_, assemble_of_ok first second⟩

end JackToolchain.Hack
